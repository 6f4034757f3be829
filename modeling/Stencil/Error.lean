import Stencil.Value.Literal

/-! What can go wrong when a module is read, edited or written, and how it is worded. -/

namespace Stencil

/-- The latest bytecode version whose modules can be read. -/
def maxVersion : Nat := 7

/-- Two types that had to agree and do not. -/
inductive TypeClash where
  /-- A value and the one that is to replace it have different types. -/
  | mixed (expected value : ValueType)
  /-- A value is of one type, and the constant that it is to replace is declared with another. -/
  | declared (value : ValueType) (found : Signature)
  /-- A constant is declared with a type whose values cannot be read. -/
  | noValue (found : Signature)
  deriving DecidableEq, Repr

def TypeClash.expected : TypeClash → String
  | .mixed expected _ => expected.name
  | .declared value _ => value.name
  | .noValue _ => "a primitive or string constant"

def TypeClash.found : TypeClash → String
  | .mixed _ value => value.name
  | .declared _ found | .noValue found => found.display

/-- What a constant holds: a value, or bytes that are no value of its type. -/
inductive Payload where
  | value (v : Value)
  | undecodable (bytes : List UInt8)
  deriving DecidableEq

def Payload.display : Payload → String
  | .value v => v.display
  | .undecodable bytes => s!"<undecodable 0x{Hex.encode bytes}>"

/-- A handle that points outside the pool which it indexes. -/
inductive Dangling where
  /-- Module handle `handle` names an identifier past the end of the pool. -/
  | identifier (handle target size : Nat)
  /-- Module handle `handle` names an address past the end of the pool. -/
  | address (handle target size : Nat)
  /-- The module's own handle is past the end of the module handles. -/
  | self (handle size : Nat)
  deriving DecidableEq, Repr

def Dangling.message : Dangling → String
  | .identifier handle target size => s!"module handle {handle} names identifier {target} of {size}"
  | .address handle target size => s!"module handle {handle} names address {target} of {size}"
  | .self handle size => s!"self module handle {handle} of {size}"

/-- Why a module cannot be read, edited or written. -/
inductive Error where
  | malformed (fault : Fault)
  /-- The input is a module of a version that cannot be read. -/
  | unsupportedVersion (version : Nat)
  | constantIndex (index size : Nat)
  | typeMismatch (index : Nat) (clash : TypeClash)
  | valueMismatch (index : Nat) (expected : Value) (found : Payload)
  | literal (error : LiteralError)
  | invalidIdentifier (name : String)
  | duplicateIdentifier (name : String)
  | danglingReference (reference : Dangling)
  deriving DecidableEq

def Error.message : Error → String
  | .malformed fault => fault.message
  | .unsupportedVersion version => s!"unsupported bytecode version {version} (supported: 1..={maxVersion})"
  | .constantIndex index size => s!"constant index {index} out of range (pool has {size} entries)"
  | .typeMismatch index clash =>
    s!"constant {index} is declared as {clash.found}, edit targets {clash.expected}"
  | .valueMismatch index expected found =>
    s!"constant {index} holds {Quoted.string found.display}, expected {Quoted.string expected.display}"
  | .literal error => error.message
  | .invalidIdentifier name => s!"invalid identifier: {Quoted.string name}"
  | .duplicateIdentifier name =>
    s!"identifier {Quoted.string name} would appear twice in the identifier pool"
  | .danglingReference reference => s!"reference integrity violated: {reference.message}"

end Stencil
