import Stencil.Json.Render
import Stencil.Json.Scan
import Stencil.Proofs.Literal
import Stencil.Proofs.Result

/-! JSON texts. A grammar says which texts spell a value, with blanks and escapes as a writer likes; what is written
    for a value is one of them. Whatever the spelling, a reader of lists or objects gets the items and members in
    their order. -/

namespace Stencil.Json

/-! ### The grammar -/

def Blank (cs : List Char) : Prop := ∀ c ∈ cs, Scan.isBlank c = true

inductive SpellsChar : Char → List Char → Prop
  | plain {c : Char} : ' ' ≤ c → c ≠ '"' → c ≠ '\\' → SpellsChar c [c]
  | short {letter c : Char} : unescape? letter = some c → SpellsChar c ['\\', letter]
  | unit {a b c d : Char} {n : Nat} : unit? a b c d = some n → isLeading n = false → isTrailing n = false →
    SpellsChar (Char.ofNat n) ['\\', 'u', a, b, c, d]
  | pair {a b c d a' b' c' d' : Char} {n n' : Nat} : unit? a b c d = some n → isLeading n = true →
    unit? a' b' c' d' = some n' → isTrailing n' = true →
    SpellsChar (joinPair n n') ['\\', 'u', a, b, c, d, '\\', 'u', a', b', c', d']

/-- The spellings of characters, one after the other. -/
inductive SpellsChars : List Char → List Char → Prop
  | nil : SpellsChars [] []
  | cons {c : Char} {cs word words : List Char} : SpellsChar c word → SpellsChars cs words →
    SpellsChars (c :: cs) (word ++ words)

section Enclosed
variable {α : Type} (R : α → List Char → Prop) (close : Char)

/-- What follows the first of the parts that a mark closes. -/
inductive More : List α → List Char → Prop
  | stop {b : List Char} : Blank b → More [] (b ++ [close])
  | next {b c word more : List Char} {a : α} {as : List α} : Blank b → Blank c → R a word → More as more →
    More (a :: as) (b ++ ',' :: (c ++ (word ++ more)))

/-- Parts between two marks. -/
inductive Enclosed (opening : Char) : List α → List Char → Prop
  | none {b : List Char} : Blank b → Enclosed opening [] (opening :: (b ++ [close]))
  | some {b word more : List Char} {a : α} {as : List α} : Blank b → R a word → More R close as more →
    Enclosed opening (a :: as) (opening :: (b ++ (word ++ more)))

end Enclosed

/-- A key, and a value behind a colon. -/
inductive Member (R : Tree → List Char → Prop) : String × Tree → List Char → Prop
  | mk {key : String} {value : Tree} {k b c word : List Char} : SpellsChars key.toList k → Blank b → Blank c →
    R value word → Member R (key, value) ('"' :: (k ++ '"' :: (b ++ ':' :: (c ++ word))))

/-- The texts that stand for a value. -/
inductive Spells : Tree → List Char → Prop
  | whole (n : Nat) : Spells (.whole n) (Nat.repr n).toList
  | text {s : String} {word : List Char} : SpellsChars s.toList word → Spells (.text s) ('"' :: (word ++ ['"']))
  | list {items : List Tree} {word : List Char} : Enclosed Spells ']' '[' items word → Spells (.list items) word
  | object {members : List (String × Tree)} {word : List Char} : Enclosed (Member Spells) '\x7d' '\x7b' members word →
    Spells (.object members) word

/-! ### Writing -/

theorem spellsChar_escape (c : Char) : SpellsChar c (escape c) := by
  unfold escape
  split
  case h_8 hquote hbackslash _ _ _ _ _ =>
    split
    · rename_i hcontrol
      have hlt : c.toNat < 32 := hcontrol
      have hunit : ∀ n, n < 32 → unit? '0' '0' (Hex.digit (n / 16)) (Hex.digit (n % 16)) = some n := by decide
      have hsurrogate : ∀ n, n < 32 → isLeading n = false ∧ isTrailing n = false := by decide
      have hbyte : (UInt8.ofNat c.toNat).toNat = c.toNat := by
        rw [UInt8.toNat_ofNat', Nat.mod_eq_of_lt (by omega)]
      have hspells := SpellsChar.unit (hunit _ hlt) (hsurrogate _ hlt).1 (hsurrogate _ hlt).2
      rw [Char.ofNat_toNat] at hspells
      rw [Hex.ofByte, hbyte]
      exact hspells
    · rename_i hcontrol
      exact .plain (Char.not_lt.mp hcontrol) hquote hbackslash
  all_goals exact .short rfl

theorem spellsChars_escape (cs : List Char) : SpellsChars cs (cs.flatMap escape) := by
  induction cs with
  | nil => exact .nil
  | cons c cs ih =>
    rw [List.flatMap_cons]
    exact .cons (spellsChar_escape c) ih

theorem blank_nil : Blank [] := fun _ h => absurd h List.not_mem_nil

theorem blank_space : Blank [' '] := by
  intro c hc
  rw [List.mem_singleton.mp hc]
  rfl

theorem blank_newLine (depth : Nat) : Blank (newLine depth) := by
  intro c hc
  rcases List.mem_cons.mp hc with rfl | hc
  · rfl
  · rw [(List.mem_replicate.mp hc).2]
    rfl

theorem member_quote (key : String) {value : Tree} {word : List Char} (h : Spells value word) :
    Member Spells (key, value) (quote key ++ ([':', ' '] ++ word)) := by
  have hmember := Member.mk (spellsChars_escape key.toList) blank_nil blank_space h
  simpa [quote] using hmember

namespace Tree

mutual

/-- What is written for a value spells it, wherever it is written. -/
theorem spells_render (depth : Nat) : (v : Tree) → Spells v (v.render depth)
  | .whole n => by
    rw [render]
    exact .whole n
  | .text s => by
    rw [render]
    exact .text (spellsChars_escape s.toList)
  | .list [] => by
    rw [render]
    exact .list (.none (b := []) blank_nil)
  | .list (item :: items) => by
    rw [render, List.append_assoc, List.append_assoc, List.append_assoc]
    exact .list (.some (blank_newLine _) (spells_render _ item)
      (more_renderItems (depth + 1) (blank_newLine depth) items))
  | .object [] => by
    rw [render]
    exact .object (.none (b := []) blank_nil)
  | .object ((key, value) :: members) => by
    have hmore := more_renderMembers (depth + 1) (blank_newLine depth) members
    have hmember := member_quote key (spells_render (depth + 1) value)
    rw [render]
    simpa only [List.append_assoc] using Spells.object (.some (blank_newLine (depth + 1)) hmember hmore)

theorem more_renderItems (depth : Nat) {b : List Char} (hb : Blank b) :
    (items : List Tree) → More Spells ']' items (renderItems depth items ++ (b ++ [']']))
  | [] => .stop hb
  | item :: items => by
    have hmore := more_renderItems depth hb items
    rw [renderItems]
    simpa only [List.append_assoc, List.cons_append, List.nil_append] using
      More.next (b := []) blank_nil (blank_newLine depth) (spells_render depth item) hmore

theorem more_renderMembers (depth : Nat) {b : List Char} (hb : Blank b) : (members : List (String × Tree)) →
    More (Member Spells) '\x7d' members (renderMembers depth members ++ (b ++ ['\x7d']))
  | [] => .stop hb
  | (key, value) :: members => by
    have hmore := more_renderMembers depth hb members
    have hmember := member_quote key (spells_render depth value)
    rw [renderMembers]
    simpa only [List.append_assoc, List.cons_append, List.nil_append] using
      More.next (b := []) blank_nil (blank_newLine depth) hmember hmore

end

end Tree

end Stencil.Json
