/-! Hexadecimal text: two digits a byte, the high half first. Digits are written in lower case and
    read in either case. -/

namespace Stencil.Hex

/-- The digit of a number below 16. -/
def digit (n : Nat) : Char := if n < 10 then Char.ofNat (48 + n) else Char.ofNat (87 + n)

def ofByte (b : UInt8) : List Char := [digit (b.toNat / 16), digit (b.toNat % 16)]

def digits (bytes : List UInt8) : List Char := bytes.flatMap ofByte

def encode (bytes : List UInt8) : String := String.ofList (digits bytes)

/-- The digits of a number without leading zeros, one at least. -/
def ofNat (n : Nat) : String := String.ofList (Nat.toDigits 16 n)

/-- What a digit stands for. -/
def value? (c : Char) : Option Nat :=
  if '0' ≤ c ∧ c ≤ '9' then some (c.toNat - 48)
  else if 'a' ≤ c ∧ c ≤ 'f' then some (c.toNat - 87)
  else if 'A' ≤ c ∧ c ≤ 'F' then some (c.toNat - 55)
  else none

/-- The bytes of a digit list; none if its length is odd or it holds something else than digits. -/
def bytes? : List Char → Option (List UInt8)
  | [] => some []
  | [_] => none
  | h :: l :: rest => do return UInt8.ofNat ((← value? h) * 16 + (← value? l)) :: (← bytes? rest)

inductive Fault where
  /-- A digit is left without its partner. -/
  | oddLength
  /-- The byte at `index` of the text is no digit. -/
  | invalid (byte : UInt8) (index : Nat)
  deriving DecidableEq, Repr

/-- The bytes that the bytes of a text spell, from `index` of the text on. -/
def decodeFrom (index : Nat) : List UInt8 → Except Fault (List UInt8)
  | h :: l :: rest =>
    match value? (Char.ofNat h.toNat), value? (Char.ofNat l.toNat) with
    | some hi, some lo => (decodeFrom (index + 2) rest).map (UInt8.ofNat (hi * 16 + lo) :: ·)
    | none, _ => .error (.invalid h index)
    | some _, none => .error (.invalid l (index + 1))
  | _ => .ok []

/-- The bytes that a text spells, given as the bytes of that text. -/
def decode (text : List UInt8) : Except Fault (List UInt8) :=
  if text.length % 2 = 1 then .error .oddLength else decodeFrom 0 text

end Stencil.Hex
