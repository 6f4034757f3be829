import Stencil.Edit.Plan

/-! The token template: a module with eight constants in a fixed order, from which tokens are made. -/

namespace Stencil

/-- A constant of the template that a token sets: its index, its type and the value in the template. -/
structure Placeholder where
  index : Nat
  type : ValueType
  default : String
  deriving DecidableEq, Repr

structure TokenSettings where
  moduleName : String
  totalSupply : String
  decimals : String
  symbol : String
  name : String
  description : String
  iconUrl : String
  mintPrice : String
  ownerAllocation : String
  deriving DecidableEq, Repr

namespace TokenSettings

def templateName : String := "template"

def placeholders : List Placeholder :=
  [⟨0, .uint .w64, "100"⟩, ⟨1, .uint .w8, "9"⟩, ⟨2, .string, "Symbol"⟩, ⟨3, .string, "Name"⟩,
   ⟨4, .string, "Description"⟩, ⟨5, .string, "icon_url"⟩, ⟨6, .uint .w64, "1000"⟩,
   ⟨7, .uint .w64, "10000"⟩]

/-- The settings in the order of the constants that they set. -/
def values (t : TokenSettings) : List String :=
  [t.totalSupply, t.decimals, t.symbol, t.name, t.description, t.iconUrl, t.mintPrice, t.ownerAllocation]

/-- The plan that replaces given values and renames a module of a given name. -/
def planFrom (t : TokenSettings) (defaults : List String) (moduleName : String) : Except Error Plan := do
  let constants ← (placeholders.zip (defaults.zip t.values)).mapM fun (p, expected, value) =>
    (Replacement.parse p.index p.type expected value).mapError .literal
  return { constants, renames := Renaming.ofModule moduleName t.moduleName }

def plan (t : TokenSettings) : Except Error Plan :=
  t.planFrom (placeholders.map (·.default)) templateName

/-- The plan for a template that may hold other values and bear another name. -/
def planFor (t : TokenSettings) (template : Module) : Except Error Plan := do
  let defaults ← placeholders.mapM fun p => return (← template.valueAt p.index).display
  t.planFrom defaults (template.name?.getD templateName)

end TokenSettings

end Stencil
