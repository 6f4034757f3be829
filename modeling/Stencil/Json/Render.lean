import Stencil.Json.Text

/-! Writing values as JSON texts. Every item and member has a line of its own, indented by two blanks
    more than what encloses it; what holds none is written without a line break. -/

namespace Stencil.Json

inductive Tree where
  | whole (n : Nat)
  | text (s : String)
  | list (items : List Tree)
  | object (members : List (String × Tree))

/-- A line break, and the blanks that begin the next line. -/
def newLine (depth : Nat) : List Char := '\n' :: List.replicate (2 * depth) ' '

namespace Tree

mutual

/-- The text of a value that is enclosed `depth` times. -/
def render (depth : Nat) : Tree → List Char
  | .whole n => (Nat.repr n).toList
  | .text s => quote s
  | .list [] => ['[', ']']
  | .list (item :: items) =>
    '[' :: (newLine (depth + 1) ++ render (depth + 1) item ++ renderItems (depth + 1) items ++
      newLine depth ++ [']'])
  | .object [] => ['\x7b', '\x7d']
  | .object ((key, value) :: members) =>
    '\x7b' :: (newLine (depth + 1) ++ quote key ++ [':', ' '] ++ render (depth + 1) value ++
      renderMembers (depth + 1) members ++ newLine depth ++ ['\x7d'])

def renderItems (depth : Nat) : List Tree → List Char
  | [] => []
  | item :: items => ',' :: (newLine depth ++ render depth item ++ renderItems depth items)

def renderMembers (depth : Nat) : List (String × Tree) → List Char
  | [] => []
  | (key, value) :: members =>
    ',' :: (newLine depth ++ quote key ++ [':', ' '] ++ render depth value ++ renderMembers depth members)

end

def toText (v : Tree) : String := String.ofList (v.render 0)

end Tree

end Stencil.Json
