import Stencil.Value.Literal

/-! Why a JSON text is not read. A text is read from left to right, and the first thing that is wrong
    decides. -/

namespace Stencil.Json

/-- What is wrong with a value that is well-formed JSON, where it can be said. -/
inductive Cause where
  | missingField (name : String)
  | duplicateField (name : String)
  /-- A text in a record is no literal. -/
  | literal (error : LiteralError)
  deriving DecidableEq, Repr

def Cause.message : Cause → String
  | .missingField name => "missing field `" ++ name ++ "`"
  | .duplicateField name => "duplicate field `" ++ name ++ "`"
  | .literal error => error.message

inductive Fault where
  | ended
  /-- What stands here cannot stand here in a JSON text. -/
  | malformed
  /-- What stands here is JSON, and not what is wanted. -/
  | unsuitable (cause : Option Cause)
  deriving DecidableEq, Repr

def Fault.message : Fault → String
  | .ended => "unexpected end of the text"
  | .malformed => "malformed text"
  | .unsuitable (some cause) => cause.message
  | .unsuitable none => "unsuitable value"

end Stencil.Json
