/-! UTF-8: the bytes of a text, and the text of bytes, with the place where bytes stop being a text. -/

namespace Stencil.Utf8

/-- The bytes of a text, one to four for each character. -/
def encode (s : String) : List UInt8 := s.toList.flatMap String.utf8EncodeChar

def size (s : String) : Nat := (encode s).length

inductive Fault where
  /-- The `count` bytes from `index` on begin a character, and what follows them does not continue it. -/
  | invalid (index count : Nat)
  /-- The input ends inside the character that begins at `index`. -/
  | incomplete (index : Nat)
  deriving DecidableEq, Repr

def Fault.message : Fault → String
  | .invalid index count => s!"invalid utf-8 sequence of {count} bytes from index {index}"
  | .incomplete index => s!"incomplete utf-8 byte sequence from index {index}"

/-- Every byte of a character after its second lies in `80..BF`. -/
def isTail (b : UInt8) : Bool := 0x80 ≤ b && b ≤ 0xBF

/-- The second byte of a character lies in `80..BF` too, but after `E0` and `F0` it may not begin a
    longer spelling than needed, after `ED` no surrogate, and after `F4` nothing above `10FFFF`. -/
def isSecond (lead b : UInt8) : Bool :=
  (if lead = 0xE0 then 0xA0 else if lead = 0xF0 then 0x90 else 0x80) ≤ b &&
    b ≤ (if lead = 0xED then 0x9F else if lead = 0xF4 then 0x8F else 0xBF)

/-- The character with the remainder of `lead` in front of the low six bits of each of `tails`. -/
def join (modulus : Nat) (lead : UInt8) (tails : List UInt8) : Char :=
  Char.ofNat (tails.foldl (fun n b => n * 64 + b.toNat % 64) (lead.toNat % modulus))

/-- The characters of bytes that stand at `index` of the whole text. -/
def decodeFrom (index : Nat) : List UInt8 → Except Fault (List Char)
  | [] => .ok []
  | a :: r =>
    if a < 0x80 then (decodeFrom (index + 1) r).map (join 128 a [] :: ·)
    else if a < 0xC2 || 0xF4 < a then .error (.invalid index 1)
    else match r with
      | [] => .error (.incomplete index)
      | b :: r =>
        if !isSecond a b then .error (.invalid index 1)
        else if a < 0xE0 then (decodeFrom (index + 2) r).map (join 32 a [b] :: ·)
        else match r with
          | [] => .error (.incomplete index)
          | c :: r =>
            if !isTail c then .error (.invalid index 2)
            else if a < 0xF0 then (decodeFrom (index + 3) r).map (join 16 a [b, c] :: ·)
            else match r with
              | [] => .error (.incomplete index)
              | d :: r =>
                if !isTail d then .error (.invalid index 3)
                else (decodeFrom (index + 4) r).map (join 8 a [b, c, d] :: ·)

def decode (bytes : List UInt8) : Except Fault String := (decodeFrom 0 bytes).map String.ofList

end Stencil.Utf8
