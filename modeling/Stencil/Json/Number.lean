import Stencil.Json.Fault

/-! Numbers in a JSON text. Only whole numbers of 64 bits are ever wanted; what matters of all others is
    that they are numbers, and that they are not too large to be held in double precision. -/

namespace Stencil.Json

/-- The largest whole number that is read exactly. -/
def maxWhole : Nat := 0xFFFFFFFFFFFFFFFF

/-- The nearest number of 53 significant bits; of two at the same distance, the even one. -/
def nearestDouble (n : Nat) : Nat :=
  let unit := Nat.pow 2 (n.log2 - 52)
  let q := n / unit
  let r := n % unit
  (if unit < 2 * r ∨ (unit = 2 * r ∧ q % 2 = 1) then q + 1 else q) * unit

/-- Whether `significand` times ten to the power `exponent` is too large for double precision. Both
    factors and their product are rounded. -/
def outOfRange (significand : Nat) (exponent : Int) : Bool :=
  significand != 0 && decide (0 ≤ exponent) &&
    (308 < exponent.toNat ||
      Nat.pow 2 1024 - Nat.pow 2 970 ≤
        nearestDouble significand * nearestDouble (Nat.pow 10 exponent.toNat))

/-- Takes digits into a significand as long as it stays below the limit; gives the significand and the
    number of digits that were left out. -/
def absorb (significand : Nat) : List Char → Nat × Nat
  | [] => (significand, 0)
  | c :: digits =>
    let next := significand * 10 + (c.toNat - 48)
    if next ≤ maxWhole then absorb next digits else (significand, digits.length + 1)

/-- A number that is not whole, or is too large to be read exactly. -/
def inexact (significand : Nat) (exponent : Int) (rest : List Char) :
    Except Fault (Option Nat × List Char) :=
  if outOfRange significand exponent then .error .malformed else .ok (none, rest)

def someDigits (s : List Char) : Except Fault (List Char × List Char) :=
  if (s.takeWhile Char.isDigit).isEmpty then .error (if s.isEmpty then .ended else .malformed)
  else .ok (s.takeWhile Char.isDigit, s.dropWhile Char.isDigit)

/-- What follows the mark of an exponent. -/
def exponentTail (significand : Nat) (exponent : Int) (s : List Char) :
    Except Fault (Option Nat × List Char) := do
  let (negative, s) := match s with
    | '+' :: s => (false, s)
    | '-' :: s => (true, s)
    | s => (false, s)
  let (digits, rest) ← someDigits s
  let n : Int := Nat.ofDigitChars 10 digits 0
  inexact significand (if negative then exponent - n else exponent + n) rest

/-- What follows the point of a number. -/
def fractionTail (significand : Nat) (exponent : Int) (s : List Char) :
    Except Fault (Option Nat × List Char) := do
  let (digits, rest) ← someDigits s
  let (significand, left) := absorb significand digits
  let exponent := exponent - (digits.length - left : Nat)
  match rest with
  | 'e' :: rest | 'E' :: rest => exponentTail significand exponent rest
  | rest => inexact significand exponent rest

/-- A number without its sign: its value, if it is whole and can be read exactly, and what follows. -/
def unsigned (s : List Char) : Except Fault (Option Nat × List Char) :=
  let digits := s.takeWhile Char.isDigit
  let rest := s.dropWhile Char.isDigit
  match digits with
  | [] => .error (if s.isEmpty then .ended else .malformed)
  | '0' :: _ :: _ => .error .malformed
  | digits =>
    let (significand, left) := absorb 0 digits
    match rest with
    | '.' :: rest => fractionTail significand left rest
    | 'e' :: rest | 'E' :: rest => exponentTail significand left rest
    | rest => if left = 0 then .ok (some significand, rest) else inexact significand left rest

/-- What follows a number of an ignored value that begins here. A number that is cut off is malformed. -/
def skipNumber (s : List Char) : Except Fault (List Char) := do
  let digitsOf (s : List Char) : Except Fault (List Char) :=
    if (s.takeWhile Char.isDigit).isEmpty then .error .malformed else .ok (s.dropWhile Char.isDigit)
  let skipExponent (s : List Char) : Except Fault (List Char) :=
    match s with
    | 'e' :: '+' :: s | 'e' :: '-' :: s | 'E' :: '+' :: s | 'E' :: '-' :: s | 'e' :: s | 'E' :: s =>
      digitsOf s
    | s => .ok s
  match s.takeWhile Char.isDigit with
  | '0' :: _ :: _ => throw .malformed
  | _ =>
    match ← digitsOf s with
    | '.' :: s => skipExponent (← digitsOf s)
    | s => skipExponent s

end Stencil.Json
