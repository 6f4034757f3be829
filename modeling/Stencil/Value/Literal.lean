import Stencil.Value.Basic
import Stencil.Text.Quoted

/-! Literals: the texts from which values are read. -/

namespace Stencil

inductive LiteralKind where
  | value (type : ValueType)
  | typeName
  | bundledModule (index : Nat)
  deriving DecidableEq, Repr

def LiteralKind.name : LiteralKind → String
  | .value type => type.name
  | .typeName => "constant type"
  | .bundledModule index => s!"hex module #{index}"

inductive LiteralError where
  /-- The text does not have the form of such a literal; `text` says what does not. -/
  | invalid (kind : LiteralKind) (text : String)
  /-- The literal is well formed, and its value is too large for the type. -/
  | outOfRange (type : ValueType) (text : String)
  deriving DecidableEq, Repr

def LiteralError.message : LiteralError → String
  | .invalid kind text => s!"invalid {kind.name} literal: {Quoted.string text}"
  | .outOfRange type text => s!"value {text} does not fit in {type.name}"

/-- The type that a text names. The declaration of a string names it too. -/
def ValueType.parse (text : String) : Except LiteralError ValueType :=
  match ValueType.ofName? text with
  | some type => .ok type
  | none => if text = "vector<u8>" then .ok .string else .error (.invalid .typeName text)

/-- Hexadecimal digits without the mark that may stand before them. -/
def Address.dropMark : List Char → List Char
  | '0' :: 'x' :: digits | '0' :: 'X' :: digits => digits
  | digits => digits

/-- The address that a text spells, with the mark `0x` or without it. -/
def Address.parse (text : String) : Except LiteralError Address :=
  let digits := dropMark text.toList
  if digits.isEmpty || !digits.all (Hex.value? · |>.isSome) then .error (.invalid (.value .address) text)
  else if 2 * addressLength < digits.length then .error (.outOfRange .address text)
  else match ofDigits? digits with
    | some a => .ok a
    | none => .error (.invalid (.value .address) text)

def Address.normalize (text : String) : Except LiteralError String := (parse text).map display

namespace Value

/-- How many binary digits a number has. Zero has none. -/
def bitLength (n : Nat) : Nat := if n = 0 then 0 else n.log2 + 1

/-- The number that decimal digits spell, if it has no more binary digits than the width. -/
def parseNumber (width : Width) (text : String) : Except LiteralError Nat :=
  let digits := text.toList
  if digits.isEmpty || !digits.all Char.isDigit then .error (.invalid (.value (.uint width)) text)
  else
    let n := Nat.ofDigitChars 10 digits 0
    if width.bits < bitLength n then .error (.outOfRange (.uint width) text) else .ok n

/-- A number as an integer of a width; none if it is too large. -/
def narrow? (width : Width) (n : Nat) : Option (BitVec width.bits) :=
  if n < width.count then some (BitVec.ofNat _ n) else none

def parseUint (width : Width) (text : String) : Except LiteralError Value := do
  let n ← parseNumber width text
  match narrow? width n with
  | some n => return .uint width n
  | none => .error (.outOfRange (.uint width) text)

def parse : ValueType → String → Except LiteralError Value
  | .bool, text =>
    if text = "true" then .ok (.bool true)
    else if text = "false" then .ok (.bool false)
    else .error (.invalid (.value .bool) text)
  | .uint width, text => parseUint width text
  | .address, text => (Address.parse text).map .address
  | .string, text =>
    if maxLength < Utf8.size text then .error (.outOfRange .string s!"{Utf8.size text} bytes")
    else .ok (.string text)

end Value

end Stencil
