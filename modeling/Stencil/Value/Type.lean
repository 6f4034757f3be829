import Stencil.Signature

/-! The types whose constants can be read as values and written from literals. -/

namespace Stencil

/-- A type of constant. A string is text, which a module declares as a vector of bytes. -/
inductive ValueType where
  | bool
  | uint (width : Width)
  | address
  | string
  deriving DecidableEq, Repr

namespace ValueType

def name : ValueType → String
  | .bool => "bool"
  | .uint w => w.name
  | .address => "address"
  | .string => "string"

def all : List ValueType :=
  [.bool, .uint .w8, .uint .w16, .uint .w32, .uint .w64, .uint .w128, .uint .w256, .address, .string]

def ofName? (s : String) : Option ValueType := all.find? (·.name == s)

/-- How a module declares a constant of a type. -/
def signature : ValueType → Signature
  | .bool => .bool
  | .uint w => .uint w
  | .address => .address
  | .string => .vector (.uint .w8)

/-- The type of the constants that a module declares in a given way. -/
def ofSignature? : Signature → Option ValueType
  | .bool => some .bool
  | .uint w => some (.uint w)
  | .address => some .address
  | .vector (.uint .w8) => some .string
  | _ => none

end ValueType

end Stencil
