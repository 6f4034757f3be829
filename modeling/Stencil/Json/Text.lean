import Stencil.Json.Fault

/-! Texts in a JSON text: characters between double quotes, some of them escaped. -/

namespace Stencil.Json

/-! ### Writing -/

/-- The spelling of a character between quotes. Only the quote, the backslash and control characters
    below the space are escaped. -/
def escape (c : Char) : List Char :=
  match c with
  | '"' => ['\\', '"']
  | '\\' => ['\\', '\\']
  | '\x08' => ['\\', 'b']
  | '\x0C' => ['\\', 'f']
  | '\n' => ['\\', 'n']
  | '\r' => ['\\', 'r']
  | '\t' => ['\\', 't']
  | c => if c < ' ' then '\\' :: 'u' :: '0' :: '0' :: Hex.ofByte (UInt8.ofNat c.toNat) else [c]

def quote (s : String) : List Char := '"' :: (s.toList.flatMap escape ++ ['"'])

/-! ### Reading -/

def unit? (a b c d : Char) : Option Nat := do
  return (((← Hex.value? a) * 16 + (← Hex.value? b)) * 16 + (← Hex.value? c)) * 16 + (← Hex.value? d)

/-- Whether a number is the first half of a surrogate pair. -/
def isLeading (n : Nat) : Bool := 0xD800 ≤ n && n ≤ 0xDBFF

/-- Whether a number is the second half of a surrogate pair. -/
def isTrailing (n : Nat) : Bool := 0xDC00 ≤ n && n ≤ 0xDFFF

/-- The character that a surrogate pair spells. -/
def joinPair (leading trailing : Nat) : Char :=
  Char.ofNat (0x10000 + (leading - 0xD800) * 0x400 + (trailing - 0xDC00))

/-- Four bytes must follow the mark of a numbered character; if the text has them, they are no digits. -/
def brokenUnit (rest : List Char) : Fault :=
  if Utf8.size (String.ofList (rest.take 4)) < 4 then .ended else .malformed

/-- The characters that the letters after a backslash stand for, but for numbered characters. -/
def unescape? : Char → Option Char
  | '"' => some '"'
  | '\\' => some '\\'
  | '/' => some '/'
  | 'b' => some '\x08'
  | 'f' => some '\x0C'
  | 'n' => some '\n'
  | 'r' => some '\r'
  | 't' => some '\t'
  | _ => none

/-- The characters up to the closing quote, and what follows it. -/
def textTail : List Char → Except Fault (List Char × List Char)
  | [] => .error .ended
  | '"' :: rest => .ok ([], rest)
  | '\\' :: rest =>
    match rest with
    | [] => .error .ended
    | 'u' :: rest =>
      match rest with
      | a :: b :: c :: d :: rest =>
        match unit? a b c d with
        | none => .error .malformed
        | some n =>
          if isTrailing n then .error .malformed
          else if isLeading n then
            match rest with
            | [] => .error .ended
            | '\\' :: rest =>
              match rest with
              | [] => .error .ended
              | 'u' :: rest =>
                match rest with
                | a :: b :: c :: d :: rest =>
                  match unit? a b c d with
                  | none => .error .malformed
                  | some n' =>
                    if isTrailing n' then (textTail rest).map fun (cs, s) => (joinPair n n' :: cs, s)
                    else .error .malformed
                | rest => .error (brokenUnit rest)
              | _ => .error .malformed
            | _ => .error .malformed
          else (textTail rest).map fun (cs, s) => (Char.ofNat n :: cs, s)
      | rest => .error (brokenUnit rest)
    | c :: rest =>
      match unescape? c with
      | some c => (textTail rest).map fun (cs, s) => (c :: cs, s)
      | none => .error .malformed
  | c :: rest =>
    if c < ' ' then .error .malformed else (textTail rest).map fun (cs, s) => (c :: cs, s)

/-- What follows the closing quote of an ignored text, whose surrogates need not be paired. -/
def skipText : List Char → Except Fault (List Char)
  | [] => .error .ended
  | '"' :: rest => .ok rest
  | '\\' :: rest =>
    match rest with
    | [] => .error .ended
    | 'u' :: rest =>
      match rest with
      | a :: b :: c :: d :: rest => if (unit? a b c d).isSome then skipText rest else .error .malformed
      | rest => .error (brokenUnit rest)
    | c :: rest => if (unescape? c).isSome then skipText rest else .error .malformed
  | c :: rest => if c < ' ' then .error .malformed else skipText rest

end Stencil.Json
