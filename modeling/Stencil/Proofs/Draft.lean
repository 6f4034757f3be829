import Stencil.Edit.File
import Stencil.Proofs.Literal
import Stencil.Proofs.Renaming
import Stencil.Proofs.Scan
import Stencil.Proofs.Store

/-! Plan files as anyone may write them, whatever their literals. A file holds drafts of replacements, whose literals
    have not been judged yet, and pairs of names. To load it is to read each draft as a replacement: the file is refused
    exactly if one of them is no replacement, and for the reason that holds of the first such draft. -/

namespace Stencil

open Json

theorem ValueType.ofName?_name (type : ValueType) : ofName? type.name = some type := by
  cases type with
  | uint w => cases w <;> rfl
  | _ => rfl

theorem ValueType.reads_scan (type : ValueType) : ReadsAs scan (.text type.name) type := by
  intro word hword before rest hb hrest
  have hread := (reads_text type.name word hword).front hrest
  cases hword with
  | text hword =>
    rw [List.cons_append] at hread ⊢
    unfold scan
    rw [Scan.bind_peek hb rfl]
    change (Scan.text >>= _) _ = _
    rw [Scan.bind_eq hread, ofField, ofName?_name]
    rfl

/-! ### Drafts -/

/-- A replacement before its literals are read. -/
structure Draft where
  index : Nat
  type : ValueType
  expected : String
  value : String

namespace Draft

/-- The replacement that a draft spells. -/
def parse (d : Draft) : Except LiteralError Replacement := Replacement.parse d.index d.type d.expected d.value

/-- Why a draft is no replacement. Its expected literal is judged before the one that is to replace it. -/
inductive Refused (d : Draft) (e : LiteralError) : Prop
  | expected (h : Value.parse d.type d.expected = .error e)
  | value {v : Value} (hexpected : Value.parse d.type d.expected = .ok v) (h : Value.parse d.type d.value = .error e)

theorem parse_eq_error_iff {d : Draft} {e : LiteralError} : d.parse = .error e ↔ d.Refused e := by
  unfold parse Replacement.parse
  constructor
  · intro h
    split at h
    · rename_i hexpected
      cases h
      exact .expected hexpected
    · rename_i hexpected
      split at h
      · rename_i hvalue
        cases h
        exact .value hexpected hvalue
      · cases h
  · intro h
    split
    · rename_i hexpected
      cases h with
      | expected h =>
        cases hexpected.symm.trans h
        rfl
      | value hexpected' _ => cases hexpected.symm.trans hexpected'
    · rename_i hexpected
      cases h with
      | expected h => cases hexpected.symm.trans h
      | value _ h =>
        split
        · rename_i hvalue
          cases hvalue.symm.trans h
          rfl
        · rename_i hvalue
          cases hvalue.symm.trans h

/-! ### Drafts in a file -/

/-- What is wrong with a file in which a literal is none. -/
def fault (e : LiteralError) : Json.Fault := .unsuitable (some (.literal e))

def members (d : Draft) : List (String × Tree) :=
  [("index", .whole d.index), ("type", .text d.type.name), ("expected", .text d.expected), ("value", .text d.value)]

/-- A draft in a file: an object with its four members, in any order. -/
inductive Filed (d : Draft) : Tree → Prop
  | mk {ms : List (String × Tree)} (h : ms.Perm d.members) : Filed d (.object ms)

/-- What has been read of a draft when the members with these keys have been. -/
def known (d : Draft) (keys : List String) : Replacement.Fields where
  index := if "index" ∈ keys then some d.index else none
  type := if "type" ∈ keys then some d.type else none
  expected := if "expected" ∈ keys then some d.expected else none
  value := if "value" ∈ keys then some d.value else none

section Fields
variable {d : Draft} (hindex : d.index ≤ maxWhole)
include hindex

/-- A member that has not been read yet is read as its field, whatever fields are known. -/
theorem readsMember_known {keys : List String} {key : String} {v : Tree} (hmem : (key, v) ∈ d.members)
    (hkey : key ∉ keys) : ReadsMember Replacement.Fields.member (d.known keys) key v (d.known (key :: keys)) := by
  have honce {α : Type} (key : String) : Scan.once key (none : Option α) = pure () := rfl
  have hread {α : Type} {x : Scan α} {f : α → Replacement.Fields} {a : α}
      (heq : Replacement.Fields.member (d.known keys) key = (do Scan.colon; return f (← x))) (hx : ReadsAs x v a)
      (hf : f a = d.known (key :: keys)) :
      ReadsMember Replacement.Fields.member (d.known keys) key v (d.known (key :: keys)) := hf ▸ readsMember heq hx
  simp only [members, List.mem_cons, Prod.mk.injEq, List.not_mem_nil, or_false] at hmem
  rcases hmem with ⟨rfl, rfl⟩ | ⟨rfl, rfl⟩ | ⟨rfl, rfl⟩ | ⟨rfl, rfl⟩
  · refine hread (f := fun n => { d.known keys with index := some n }) ?_ (reads_whole hindex) ?_
    · simp [Replacement.Fields.member, known, hkey, honce]
    · simp [known]
  · refine hread (f := fun t => { d.known keys with type := some t }) ?_ (ValueType.reads_scan d.type) ?_
    · simp [Replacement.Fields.member, known, hkey, honce]
    · simp [known]
  · refine hread (f := fun s => { d.known keys with expected := some s }) ?_ (reads_text d.expected) ?_
    · simp [Replacement.Fields.member, known, hkey, honce]
    · simp [known]
  · refine hread (f := fun s => { d.known keys with value := some s }) ?_ (reads_text d.value) ?_
    · simp [Replacement.Fields.member, known, hkey, honce]
    · simp [known]

theorem folds_known {ms : List (String × Tree)} (hms : ms ⊆ d.members) (hnodup : (ms.map (·.1)).Nodup)
    (keys : List String) (hkeys : ∀ m ∈ ms, m.1 ∉ keys) : Folds Replacement.Fields.member (d.known keys) ms
      (d.known ((ms.map (·.1)).reverse ++ keys)) := by
  induction ms generalizing keys with
  | nil => exact .nil
  | cons m ms ih =>
    obtain ⟨hm, hms⟩ := List.cons_subset.mp hms
    obtain ⟨hnotin, hnodup⟩ := List.nodup_cons.mp hnodup
    obtain ⟨hkey, hkeys⟩ := List.forall_mem_cons.mp hkeys
    have hnext : ∀ m' ∈ ms, m'.1 ∉ m.1 :: keys := by
      intro m' hm'
      rw [List.mem_cons, not_or]
      exact ⟨fun heq => hnotin (List.mem_map.mpr ⟨m', hm', heq⟩), hkeys m' hm'⟩
    have hfolds := ih hms hnodup (m.1 :: keys) hnext
    rw [List.map_cons, List.reverse_cons, List.append_assoc, List.singleton_append]
    exact .cons (readsMember_known hindex hm hkey) hfolds

/-- All four fields are known in the end, whatever the order of the members. -/
theorem folds_members {ms : List (String × Tree)} (h : ms.Perm d.members) :
    Folds Replacement.Fields.member ⟨none, none, none, none⟩ ms
      ⟨some d.index, some d.type, some d.expected, some d.value⟩ := by
  have hkeys : (ms.map (·.1)).Perm ["index", "type", "expected", "value"] := h.map _
  have hfolds := folds_known hindex h.subset (hkeys.nodup_iff.mpr (by decide)) [] fun _ _ => List.not_mem_nil
  simpa [known, -List.mem_map, hkeys.mem_iff] using hfolds

/-- What a draft in a file is read as: the replacement that it spells, or the fault that says why there is none. -/
theorem yields_scan {tree : Tree} (h : d.Filed tree) :
    YieldsAs Replacement.scan tree (d.parse.mapError fault) := by
  obtain ⟨hms⟩ := h
  refine yields_record (f := fun fields => do
    Replacement.ofRecord (← Scan.need "index" fields.index) (← Scan.need "type" fields.type)
      (← Scan.need "expected" fields.expected) (← Scan.need "value" fields.value))
    (fun before cs hb => ?_) (folds_members hindex hms).runs fun s => ?_
  · unfold Replacement.scan
    rw [Scan.bind_peek hb rfl]
    rfl
  · change Replacement.ofRecord d.index d.type d.expected d.value s = _
    unfold Replacement.ofRecord parse
    cases Replacement.parse d.index d.type d.expected d.value <;> rfl

end Fields

end Draft

end Stencil
