import Stencil.Edit.Basic

/-! Replacing constants. A replacement names the value that it replaces, so it applies only to a module
    that still holds that value. -/

namespace Stencil

theorem Value.type_of_parse {type : ValueType} {text : String} {v : Value}
    (h : parse type text = .ok v) : v.type = type := by
  unfold parse at h
  split at h
  · split at h
    · cases h; rfl
    · split at h <;> cases h
      rfl
  · simp only [parseUint, bind, Except.bind] at h
    split at h
    · cases h
    · split at h <;> cases h
      rfl
  · unfold Except.map at h
    split at h <;> cases h
    rfl
  · split at h <;> cases h
    rfl

/-- At `index`, replace `expected` with `value`. -/
structure Replacement where
  index : Nat
  expected : Value
  value : Value
  /-- A constant keeps its type. -/
  type_expected : expected.type = value.type
  deriving DecidableEq

namespace Replacement

def type (e : Replacement) : ValueType := e.value.type

def ofValues (index : Nat) (expected value : Value) : Except Error Replacement :=
  if h : expected.type = value.type then .ok ⟨index, expected, value, h⟩
  else .error (.typeMismatch index (.mixed expected.type value.type))

/-- The replacement that literals spell; the expected one is read first. -/
def parse (index : Nat) (type : ValueType) (expected value : String) :
    Except LiteralError Replacement :=
  match he : Value.parse type expected with
  | .error error => .error error
  | .ok e =>
    match hv : Value.parse type value with
    | .error error => .error error
    | .ok v => .ok ⟨index, e, v, (Value.type_of_parse he).trans (Value.type_of_parse hv).symm⟩

end Replacement

/-- Replaces one constant. The constant must be declared with the replacement's type and hold the
    expected value. -/
def Edit.replace (e : Replacement) : Edit Unit := do
  let m ← get
  match m.constantAt e.index with
  | .error error => throw error
  | .ok c =>
    if c.type ≠ e.type.signature then throw (.typeMismatch e.index (.declared e.type c.type))
    match Value.decode e.type c.data with
    | .error _ => throw (.valueMismatch e.index e.expected (.undecodable c.data))
    | .ok current =>
      if current = e.expected then
        set { m with constants := m.constants.set e.index { c with data := e.value.encode } }
      else throw (.valueMismatch e.index e.expected (.value current))

def Module.replace (m : Module) (e : Replacement) : Except Error Module :=
  ((Edit.replace e).result m).map (·.1)

end Stencil
