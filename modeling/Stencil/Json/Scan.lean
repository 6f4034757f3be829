import Stencil.Json.Number
import Stencil.Json.Text

/-! Reading a JSON text as a value of a known form, from left to right. What does not fit the form is
    told from what is not JSON, as far as the text has been read. -/

namespace Stencil.Json

/-- A step that reads from the front of a text. -/
abbrev Scan (α : Type) := StateT (List Char) (Except Fault) α

namespace Scan

variable {α σ : Type}

/-- Whether a character may stand between the parts of a text. -/
def isBlank (c : Char) : Bool := c = ' ' || c = '\t' || c = '\n' || c = '\r'

/-- The next character after blanks, which stays in the text. -/
def peek : Scan (Option Char) := fun s =>
  let s := s.dropWhile isBlank
  .ok (s.head?, s)

def skip : Scan Unit := fun s => .ok ((), s.drop 1)

/-- The characters of a text whose opening quote has been passed, as a text. -/
def textRest : Scan String := fun s => (textTail s).map fun (cs, s) => (String.ofList cs, s)

def number : Scan (Option Nat) := fun s => unsigned s

/-- The letters of a word, one by one. -/
def letters : List Char → Scan Unit
  | [] => pure ()
  | c :: word => do
    match ← (get : Scan (List Char)) with
    | [] => throw .ended
    | next :: rest => if next = c then set rest; letters word else throw .malformed

/-- Refuses the value that begins here, after reading as much of it as tells what it is. -/
def refuse : Scan α := do
  match ← peek with
  | some 'n' => do letters "null".toList; throw (.unsuitable none)
  | some 't' => do letters "true".toList; throw (.unsuitable none)
  | some 'f' => do letters "false".toList; throw (.unsuitable none)
  | some '"' => do skip; let _ ← textRest; throw (.unsuitable none)
  | some '-' => do skip; let _ ← number; throw (.unsuitable none)
  | some '[' | some '\x7b' => throw (.unsuitable none)
  | some c => if c.isDigit then do let _ ← number; throw (.unsuitable none) else throw .malformed
  | none => throw .malformed

def text : Scan String := do
  match ← peek with
  | none => throw .ended
  | some '"' => do skip; textRest
  | some _ => refuse

def whole : Scan Nat := do
  match ← peek with
  | none => throw .ended
  | some c =>
    if c.isDigit then
      match ← number with
      | some n => return n
      | none => throw (.unsuitable none)
    else refuse

/-- The word that stands for nothing. -/
def null : Scan Unit := do
  match ← peek with
  | none => throw .ended
  | some 'n' => letters "null".toList
  | some _ => refuse

def colon : Scan Unit := do
  match ← peek with
  | none => throw .ended
  | some ':' => skip
  | some _ => throw .malformed

/-- The text of a key, without its colon. -/
def key : Scan String := do
  match ← peek with
  | none => throw .ended
  | some '"' => do skip; textRest
  | some _ => throw .malformed

/-! ### Lists -/

/-- The items after the first one, up to the closing bracket. -/
def moreItems (item : Scan α) : (fuel : Nat) → Scan (List α)
  | 0 => throw .ended
  | fuel + 1 => do
    match ← peek with
    | none => throw .ended
    | some ']' => do skip; return []
    | some ',' => do
      skip
      match ← peek with
      | none => throw .ended
      | some ']' => throw .malformed
      | some _ => return (← item) :: (← moreItems item fuel)
    | some _ => throw .malformed

/-- The items after the opening bracket, up to the closing one. No text has more items than characters. -/
def items (item : Scan α) : Scan (List α) := do
  match ← peek with
  | none => throw .ended
  | some ']' => do skip; return []
  | some _ => do
    let first ← item
    return first :: (← moreItems item ((← get).length + 1))

def list (item : Scan α) : Scan (List α) := do
  match ← peek with
  | none => throw .ended
  | some '[' => do skip; items item
  | some _ => refuse

/-! ### Records written as lists -/

/-- The next item of a list, if there is one; `first` tells whether any came before it. -/
def nextItem? (first : Bool) (item : Scan α) : Scan (Option α) := do
  match ← peek with
  | none => throw .ended
  | some ']' => return none
  | some c =>
    if first then some <$> item
    else if c = ',' then do
      skip
      match ← peek with
      | none => throw .ended
      | some ']' => throw .malformed
      | some _ => some <$> item
    else throw .malformed

/-- The next item of a list, which must be there. -/
def nextItem (first : Bool) (item : Scan α) : Scan α := do
  match ← nextItem? first item with
  | some a => return a
  | none => throw (.unsuitable none)

/-- The closing bracket of a list that holds no more items. -/
def endItems : Scan Unit := do
  match ← peek with
  | none => throw .ended
  | some ']' => skip
  | some _ => throw .malformed

/-! ### Objects -/

/-- The members after the first one, up to the closing brace. -/
def moreMembers (member : σ → String → Scan σ) : (fuel : Nat) → σ → Scan σ
  | 0, _ => throw .ended
  | fuel + 1, state => do
    match ← peek with
    | none => throw .ended
    | some '\x7d' => do skip; return state
    | some ',' => do
      skip
      moreMembers member fuel (← member state (← key))
    | some _ => throw .malformed

/-- The members after the opening brace, up to the closing one. A member is read after its key, and
    changes what is known so far. -/
def members (member : σ → String → Scan σ) (state : σ) : Scan σ := do
  match ← peek with
  | none => throw .ended
  | some '\x7d' => do skip; return state
  | some _ => do
    let state ← member state (← key)
    moreMembers member ((← get).length + 1) state

def object (member : σ → String → Scan σ) (state : σ) : Scan σ := do
  match ← peek with
  | none => throw .ended
  | some '\x7b' => do skip; members member state
  | some _ => refuse

/-- Fails if the field of a key has been read already. -/
def once (name : String) : Option α → Scan Unit
  | some _ => throw (.unsuitable (some (.duplicateField name)))
  | none => pure ()

/-- A field that must have been read. -/
def need (name : String) : Option α → Scan α
  | some a => pure a
  | none => throw (.unsuitable (some (.missingField name)))

/-! ### Ignored values -/

/-- What encloses a value. -/
inductive Enclosure where
  | list
  | object

/-- The key of an ignored member, with its colon. -/
def ignoredKey : Scan Unit := do
  match ← peek with
  | none => throw .ended
  | some '"' => do
    skip
    set (← (skipText (← get) : Except Fault (List Char)))
    colon
  | some _ => throw .malformed

/-- Passes over a value of any form and the rest of all that encloses it, innermost first. With `atEnd`
    the value has been passed already. -/
def ignoreWithin : (fuel : Nat) → (atEnd : Bool) → List Enclosure → Scan Unit
  | 0, _, _ => throw .ended
  | _ + 1, true, [] => return ()
  | fuel + 1, true, enclosure :: outer => do
    match enclosure, ← peek with
    | _, none => throw .ended
    | .list, some ']' => do skip; ignoreWithin fuel true outer
    | .object, some '\x7d' => do skip; ignoreWithin fuel true outer
    | .list, some ',' => do skip; ignoreWithin fuel false (enclosure :: outer)
    | .object, some ',' => do skip; ignoredKey; ignoreWithin fuel false (enclosure :: outer)
    | _, some _ => throw .malformed
  | fuel + 1, false, outer => do
    match ← peek with
    | none => throw .ended
    | some 'n' => do letters "null".toList; ignoreWithin fuel true outer
    | some 't' => do letters "true".toList; ignoreWithin fuel true outer
    | some 'f' => do letters "false".toList; ignoreWithin fuel true outer
    | some '"' => do
      skip
      set (← (skipText (← get) : Except Fault (List Char)))
      ignoreWithin fuel true outer
    | some '[' => do
      skip
      match ← peek with
      | none => throw .ended
      | some ']' => do skip; ignoreWithin fuel true outer
      | some _ => ignoreWithin fuel false (.list :: outer)
    | some '\x7b' => do
      skip
      match ← peek with
      | none => throw .ended
      | some '\x7d' => do skip; ignoreWithin fuel true outer
      | some _ => do ignoredKey; ignoreWithin fuel false (.object :: outer)
    | some c => do
      if c = '-' then skip
      else if !c.isDigit then throw .malformed
      set (← (skipNumber (← get) : Except Fault (List Char)))
      ignoreWithin fuel true outer

/-- Passes over a value of any form. Each part of a value takes a character, and is passed in two steps
    at most. -/
def ignore : Scan Unit := do ignoreWithin (2 * (← get).length + 2) false []

/-! ### Whole texts -/

/-- The value of a text that holds nothing else. -/
def run (x : Scan α) (s : String) : Except Fault α := do
  let (a, rest) ← x s.toList
  if rest.all isBlank then return a else throw .malformed

end Scan

end Stencil.Json
