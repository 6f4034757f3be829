import Mathlib.Data.List.Permutation
import Stencil.Proofs.Draft
import Stencil.Proofs.Planning
import Stencil.Proofs.Renaming
import Stencil.Proofs.Scan
import Stencil.Proofs.Store

/-! Plans and their files. A text that spells drafts and pairs of names is read as the plan that they make, or refused
    for the first draft that is no replacement. The record of a plan is one of drafts, so it is read as that plan,
    however it is laid out. -/

namespace Stencil

open Json

namespace Replacement

/-- What is written for a replacement. -/
def draft (e : Replacement) : Draft := ⟨e.index, e.type, e.expected.display, e.value.display⟩

theorem filed_record (e : Replacement) : e.draft.Filed e.record := .mk (List.Perm.refl _)

theorem parse_draft {e : Replacement} (hexpected : e.expected.Short) (hvalue : e.value.Short) :
    e.draft.parse = .ok e := parse_display hexpected hvalue

end Replacement

namespace Renaming

theorem folds_member (r : Renaming) (entries : List (String × String)) :
    Folds member r (entries.map fun (s, t) => (s, Tree.text t)) (r.insertAll entries) := by
  induction entries generalizing r with
  | nil => exact .nil
  | cons e entries ih => exact .cons (readsMember rfl (reads_text e.2)) (ih _)

/-- Pairs of names are read one after the other, whether or not two of them are of one name. -/
theorem reads_scan (pairs : List (String × String)) :
    ReadsAs scan (.object (pairs.map fun (s, t) => (s, .text t))) (empty.insertAll pairs) :=
  reads_object (folds_member empty pairs)

end Renaming

namespace Plan

/-! ### Reading -/

/-- The plan that drafts and pairs of names spell. -/
def ofDrafts (drafts : List Draft) (pairs : List (String × String)) : Except LiteralError Plan :=
  (drafts.mapM Draft.parse).map fun es => ⟨es, Renaming.empty.insertAll pairs⟩

/-- Drafts and pairs of names in a file: an object with its two members, in any order. -/
inductive Filed (drafts : List Draft) (pairs : List (String × String)) : Tree → Prop
  | mk {items : List Tree} {ms : List (String × Tree)} (hitems : List.Forall₂ Draft.Filed drafts items)
    (h : ms.Perm [("constants", .list items), ("renames", .object (pairs.map fun (s, t) => (s, .text t)))]) :
    Filed drafts pairs (.object ms)

section Drafts
variable {drafts : List Draft} {pairs : List (String × String)} {tree : Tree}

theorem ofDrafts_eq_ok_iff {p : Plan} : ofDrafts drafts pairs = .ok p ↔
    List.Forall₂ (fun d e => d.parse = .ok e) drafts p.constants ∧ p.renames = Renaming.empty.insertAll pairs := by
  rw [← Result.mapM_eq_ok_iff]
  unfold ofDrafts
  obtain ⟨constants, renames⟩ := p
  cases drafts.mapM Draft.parse with
  | error e => simp [Except.map]
  | ok es => simp [Except.map, eq_comm]

theorem exists_ofDrafts_iff : (∃ p, ofDrafts drafts pairs = .ok p) ↔ ∀ d ∈ drafts, ∃ e, d.parse = .ok e := by
  rw [← Result.exists_mapM_eq_ok_iff]
  unfold ofDrafts
  cases drafts.mapM Draft.parse <;> simp [Except.map]

theorem ofDrafts_eq_error_iff {e : LiteralError} : ofDrafts drafts pairs = .error e ↔
    ∃ earlier d later, drafts = earlier ++ d :: later ∧ (∀ d' ∈ earlier, ∃ e', d'.parse = .ok e') ∧ d.Refused e := by
  have hmap : ofDrafts drafts pairs = .error e ↔ drafts.mapM Draft.parse = .error e := by
    unfold ofDrafts
    cases drafts.mapM Draft.parse <;> simp [Except.map]
  simp only [hmap, Result.mapM_eq_error_iff, Draft.parse_eq_error_iff]

theorem yields_drafts {items : List Tree} (hindex : ∀ d ∈ drafts, d.index ≤ maxWhole)
    (h : List.Forall₂ Draft.Filed drafts items) :
    YieldsAs (Scan.list Replacement.scan) (.list items) ((drafts.mapM Draft.parse).mapError Draft.fault) := by
  have hitems : List.Forall₂ (YieldsAs Replacement.scan) items
      (drafts.map fun d => d.parse.mapError Draft.fault) := by
    induction h with
    | nil => exact .nil
    | cons hfiled _ ih =>
      obtain ⟨hfirst, hindex⟩ := List.forall_mem_cons.mp hindex
      exact .cons (Draft.yields_scan hfirst hfiled) (ih hindex)
  have hread := yields_list hitems
  rwa [List.mapM_map, Function.id_comp, Result.mapM_mapError] at hread

/-- The members of a plan come to what its list of replacements comes to, in whichever order they stand. -/
theorem runs_members {constants renames : Tree} {es : Except Json.Fault (List Replacement)} {r : Renaming}
    (hconstants : YieldsAs (Scan.list Replacement.scan) constants es) (hrenames : ReadsAs Renaming.scan renames r)
    {ms : List (String × Tree)} (h : ms.Perm [("constants", constants), ("renames", renames)]) :
    Runs Fields.member ⟨none, none⟩ ms (es.map fun es => ⟨some es, some r⟩) := by
  have hes (renames : Option Renaming) : YieldsMember Fields.member ⟨none, renames⟩ "constants" constants
      (es.map fun es => ⟨some es, renames⟩) := yieldsMember rfl hconstants
  have hr (constants : Option (List Replacement)) : ReadsMember Fields.member ⟨constants, none⟩ "renames" renames
      ⟨constants, some r⟩ :=
    readsMember (f := fun r => Fields.mk constants (some r)) rfl hrenames
  rcases List.perm_pair.mp h with rfl | rfl
  · cases es with
    | error fault => exact .refused (hes none)
    | ok es => exact .cons (hes none) (.cons (hr (some es)) .nil)
  · cases es with
    | error fault => exact .cons (hr none) (.refused (hes (some r)))
    | ok es => exact .cons (hr none) (.cons (hes (some r)) .nil)

/-- What drafts and pairs in a file are read as: the plan that they spell, or the fault of the first draft that is no
    replacement. -/
theorem yields_scan (hindex : ∀ d ∈ drafts, d.index ≤ maxWhole) (h : Filed drafts pairs tree) :
    YieldsAs scan tree ((ofDrafts drafts pairs).mapError Draft.fault) := by
  obtain ⟨hitems, hms⟩ := h
  refine yields_record (f := fun fields => pure (ofFields fields)) (fun before cs hb => ?_)
    (runs_members (yields_drafts hindex hitems) (Renaming.reads_scan pairs) hms) fun s => ?_
  · unfold scan
    rw [Scan.bind_peek hb rfl]
    rfl
  · unfold ofDrafts
    cases drafts.mapM Draft.parse <;> rfl

end Drafts

/-! ### Saving and loading -/

/-- All that a plan says can be written to a file. -/
def Writable (p : Plan) : Prop := ∀ e ∈ p.constants, e.index ≤ maxWhole ∧ e.expected.Short ∧ e.value.Short

theorem filed_record (p : Plan) : Filed (p.constants.map Replacement.draft) p.renames.entries p.record :=
  .mk (List.forall₂_map_left_iff.mpr (List.forall₂_map_right_iff.mpr
    (List.forall₂_same.mpr fun e _ => e.filed_record))) (List.Perm.refl _)

theorem reads_scan {p : Plan} (h : p.Writable) : ReadsAs scan p.record p := by
  have hread := yields_scan (List.forall_mem_map.mpr fun e he => (h e he).1) p.filed_record
  have hspells : ofDrafts (p.constants.map Replacement.draft) p.renames.entries = .ok p := by
    refine ofDrafts_eq_ok_iff.mpr ⟨List.forall₂_map_left_iff.mpr (List.forall₂_same.mpr fun e he => ?_),
      (Renaming.insertAll_entries p.renames).symm⟩
    exact Replacement.parse_draft (h e he).2.1 (h e he).2.2
  rwa [hspells] at hread

/-- The text of a plan is read as the plan. -/
theorem ofText_toText {p : Plan} (h : p.Writable) : ofText p.toText = .ok p := run_toText (reads_scan h)

theorem save_eq_ok_iff {p : Plan} {path : String} {s s' : Store} : p.save Store.files path s = (.ok (), s') ↔
    ∃ place, s.target path = .ok place ∧ s.put place (.file (Utf8.encode p.toText)) = s' :=
  Store.files_write_eq_ok_iff

/-- A plan is loaded from the file that it was saved to. -/
theorem load_of_save {p : Plan} (hp : p.Writable) {path : String} {s s' : Store}
    (h : p.save Store.files path s = (.ok (), s')) :
    s'.read path = .ok (Utf8.encode p.toText) ∧ load Store.files path s' = (.ok p, s') := by
  obtain ⟨place, htarget, rfl⟩ := save_eq_ok_iff.mp h
  have hread := Store.read_put_target htarget (Utf8.encode p.toText)
  refine ⟨hread, ?_⟩
  rw [load, Store.files_load ofText hread, ofText_toText hp]
  rfl

/-- A plan that has been saved where a file can be written is loaded as it was, and to save it again changes
    nothing. -/
theorem load_save {p : Plan}
    (hp : ∀ e ∈ p.constants, e.index < 2 ^ 64 ∧ e.expected.Obtained ∧ e.value.Obtained) (s : Store) (path : String) :
    ((∃ place, s.target path = .ok place) → ∃ s', p.save Store.files path s = (.ok (), s')) ∧
      ∀ s', p.save Store.files path s = (.ok (), s') →
        s'.read path = .ok (Utf8.encode p.toText) ∧ load Store.files path s' = (.ok p, s') ∧
          p.save Store.files path s' = (.ok (), s') := by
  have hwritable : p.Writable := by
    intro e he
    obtain ⟨hindex, hexpected, hvalue⟩ := hp e he
    exact ⟨Nat.le_of_lt_succ hindex, hexpected.short, hvalue.short⟩
  constructor
  · rintro ⟨place, htarget⟩
    exact ⟨_, save_eq_ok_iff.mpr ⟨place, htarget, rfl⟩⟩
  · intro s' hsave
    obtain ⟨hread, hload⟩ := load_of_save hwritable hsave
    obtain ⟨place, htarget, rfl⟩ := save_eq_ok_iff.mp hsave
    have htarget' := (Store.target_put_file (Store.get?_target htarget) (Utf8.encode p.toText)).mpr htarget
    exact ⟨hread, hload, save_eq_ok_iff.mpr ⟨place, htarget', Store.put_put s place _⟩⟩

section Drafts
variable {drafts : List Draft} {pairs : List (String × String)} {tree : Tree} {before word after : List Char}
  {path : String} {s : Store}

theorem load_eq_iff_of_filed (hindex : ∀ d ∈ drafts, d.index ≤ maxWhole) (hfiled : Filed drafts pairs tree)
    (hword : Spells tree word) (hbefore : Blank before) (hafter : Blank after)
    (hread : s.read path = .ok (Utf8.encode (String.ofList (before ++ (word ++ after)))))
    {result : Except LoadError Plan} : load Store.files path s = (result, s) ↔
      ((ofDrafts drafts pairs).mapError Draft.fault).mapError (.unparsable path) = result := by
  have hload : load Store.files path s =
      (((ofDrafts drafts pairs).mapError Draft.fault).mapError (.unparsable path), s) := by
    rw [load, Store.files_load ofText hread, ofText, run_spells (yields_scan hindex hfiled) hword hbefore hafter]
  rw [hload]
  exact ⟨fun h => congrArg Prod.fst h, fun h => congrArg (·, s) h⟩

/-- A file of drafts and pairs of names is loaded exactly if every draft is a replacement. The plan then has these
    replacements in their order, and of the pairs for one name it has the last one. If it is not loaded, that is for
    the fault of the first draft that is no replacement. -/
theorem load_drafts (hindex : ∀ d ∈ drafts, d.index < 2 ^ 64) (hfiled : Filed drafts pairs tree)
    (hword : Spells tree word) (hbefore : Blank before) (hafter : Blank after)
    (hread : s.read path = .ok (Utf8.encode (String.ofList (before ++ (word ++ after))))) :
    ((∃ p, load Store.files path s = (.ok p, s)) ↔ ∀ d ∈ drafts, ∃ e, d.parse = .ok e) ∧
    (∀ p, load Store.files path s = (.ok p, s) →
      List.Forall₂ (fun d e => d.parse = .ok e) drafts p.constants ∧
        ∀ name, p.renames.get? name = pairs.reverse.lookup name) ∧
    ∀ error, load Store.files path s = (.error error, s) ↔
      ∃ earlier d later e, drafts = earlier ++ d :: later ∧ (∀ d' ∈ earlier, ∃ e', d'.parse = .ok e') ∧
        d.Refused e ∧ error = .unparsable path (.unsuitable (some (.literal e))) ∧ error.cause = e.message := by
  have hload (result : Except LoadError Plan) : load Store.files path s = (result, s) ↔ _ :=
    load_eq_iff_of_filed (fun d hd => Nat.le_of_lt_succ (hindex d hd)) hfiled hword hbefore hafter hread
  have hok (p : Plan) : load Store.files path s = (.ok p, s) ↔ ofDrafts drafts pairs = .ok p := by
    rw [hload]
    cases ofDrafts drafts pairs <;> simp [Except.mapError]
  have herror (error : LoadError) : load Store.files path s = (.error error, s) ↔
      ∃ e, ofDrafts drafts pairs = .error e ∧ error = .unparsable path (Draft.fault e) := by
    rw [hload]
    cases ofDrafts drafts pairs <;> simp [Except.mapError, eq_comm]
  refine ⟨?_, fun p hp => ?_, fun error => ?_⟩
  · simp only [hok, exists_ofDrafts_iff]
  · obtain ⟨hconstants, hrenames⟩ := ofDrafts_eq_ok_iff.mp ((hok p).mp hp)
    refine ⟨hconstants, fun name => ?_⟩
    rw [hrenames, Renaming.get?_insertAll]
    exact Option.or_none
  · rw [herror]
    constructor
    · rintro ⟨e, he, rfl⟩
      obtain ⟨earlier, d, later, hdrafts, hearlier, hd⟩ := ofDrafts_eq_error_iff.mp he
      exact ⟨earlier, d, later, e, hdrafts, hearlier, hd, rfl, rfl⟩
    · rintro ⟨earlier, d, later, e, hdrafts, hearlier, hd, rfl, -⟩
      exact ⟨e, ofDrafts_eq_error_iff.mpr ⟨earlier, d, later, hdrafts, hearlier, hd⟩, rfl⟩

/-- Drafts whose literals are not as they would be written. -/
def loose : List Draft :=
  [⟨2 ^ 64 - 1, .address, "0X00aB", "2"⟩, ⟨0, .uint .w8, "007", "0255"⟩, ⟨7, .string, "\"é𝄞", ""⟩]

/-- The first of these drafts is a replacement. Both literals of the second one are faulty, and so is the third one. -/
def faulty : List Draft := [⟨0, .bool, "true", "false"⟩, ⟨1, .uint .w8, "256", "three"⟩, ⟨2, .bool, "TRUE", "1"⟩]

/-- A file of drafts and pairs of names in which all members stand in the other order. -/
def reversed (drafts : List Draft) (pairs : List (String × String)) : Tree :=
  .object [("renames", .object (pairs.map fun (s, t) => (s, .text t))),
    ("constants", .list (drafts.map fun d => .object d.members.reverse))]

theorem filed_reversed (drafts : List Draft) (pairs : List (String × String)) :
    Filed drafts pairs (reversed drafts pairs) :=
  .mk (List.forall₂_map_right_iff.mpr (List.forall₂_same.mpr fun d _ => .mk d.members.reverse_perm))
    (List.Perm.swap _ _ _)

/-- A store with a file that holds a tree between blanks. -/
def stored (tree : Tree) : Store :=
  Store.empty.put ["plan.json"] (.file (Utf8.encode (String.ofList (['\n'] ++ (tree.render 0 ++ [' '])))))

theorem read_stored (tree : Tree) :
    (stored tree).read "plan.json" = .ok (Utf8.encode (String.ofList (['\n'] ++ (tree.render 0 ++ [' '])))) :=
  Store.read_put_target (by decide +kernel : Store.empty.target "plan.json" = .ok ["plan.json"]) _

theorem load_loose_faulty :
    let twice := reversed loose [("a", "b"), ("\n", ""), ("a", "\t")]
    (∀ d ∈ loose ++ faulty, d.index < 2 ^ 64) ∧ Blank ['\n'] ∧ Blank [' '] ∧ Spells twice (twice.render 0) ∧
      (∃ p, load Store.files "plan.json" (stored twice) = (.ok p, stored twice) ∧
        p.renames.get? "a" = some "\t") ∧
      ∃ error, load Store.files "plan.json" (stored (reversed faulty [])) =
        (.error error, stored (reversed faulty [])) ∧ error.cause = "value 256 does not fit in u8" := by
  have hindex : ∀ d ∈ loose ++ faulty, d.index < 2 ^ 64 := by decide +kernel
  have hline : Blank ['\n'] := blank_newLine 0
  have hparse : ∀ d ∈ loose ++ faulty.take 1, ∃ e, d.parse = .ok e := by
    have hall : ∀ d ∈ loose ++ faulty.take 1, d.parse.isOk = true := by decide +kernel
    exact fun d hd => Result.exists_of_isOk (hall d hd)
  have hrefused : (⟨1, .uint .w8, "256", "three"⟩ : Draft).Refused (.outOfRange (.uint .w8) "256") :=
    .expected (by decide +kernel)
  refine ⟨hindex, hline, blank_space, Tree.spells_render _ _, ?_, ?_⟩
  · obtain ⟨hloads, hplan, -⟩ := load_drafts (fun d hd => hindex d (List.mem_append_left _ hd))
      (filed_reversed loose _) (Tree.spells_render 0 _) hline blank_space (read_stored _)
    obtain ⟨p, hp⟩ := hloads.mpr fun d hd => hparse d (List.mem_append_left _ hd)
    exact ⟨p, hp, ((hplan p hp).2 "a").trans (by decide +kernel)⟩
  · obtain ⟨-, -, herror⟩ := load_drafts (fun d hd => hindex d (List.mem_append_right _ hd))
      (filed_reversed faulty []) (Tree.spells_render 0 _) hline blank_space (read_stored _)
    have hfirst := fun d hd => hparse d (List.mem_append_right _ hd)
    exact ⟨_, (herror _).mpr ⟨faulty.take 1, _, _, _, rfl, hfirst, hrefused, rfl, rfl⟩, by decide +kernel⟩

end Drafts

/-- A plan of the largest index, with texts that have to be escaped. -/
def intricate : Plan where
  constants :=
    [⟨2 ^ 64 - 1, .uint .w256 (BitVec.allOnes 256), .uint .w256 0, rfl⟩,
      ⟨0, .string "\"\\/\n\x01\x7fé€𝄞", .string "", rfl⟩]
  renames := Renaming.empty.insertAll [("coin", "\t\x1f"), ("", "\"")]

theorem load_save_intricate :
    (∀ e ∈ intricate.constants, e.index < 2 ^ 64 ∧ e.expected.Obtained ∧ e.value.Obtained) ∧
      ∃ s', intricate.save Store.files "plan.json" Store.empty = (.ok (), s') ∧
        load Store.files "plan.json" s' = (.ok intricate, s') ∧
        intricate.save Store.files "plan.json" s' = (.ok (), s') := by
  have hobtained : ∀ e ∈ intricate.constants, e.index < 2 ^ 64 ∧ e.expected.Obtained ∧ e.value.Obtained := by
    intro e he
    have hnumber (w : Width) (n : BitVec w.bits) : (Value.uint w n).Obtained :=
      Or.inl ⟨_, Value.parse_display (v := .uint w n) trivial⟩
    simp only [intricate, List.mem_cons, List.not_mem_nil, or_false] at he
    rcases he with rfl | rfl
    · exact ⟨by decide, hnumber _ _, hnumber _ _⟩
    · exact ⟨by decide, Or.inl ⟨"\"\\/\n\x01\x7fé€𝄞", by decide +kernel⟩, Or.inl ⟨"", by decide +kernel⟩⟩
  have htarget : Store.empty.target "plan.json" = .ok ["plan.json"] := by decide +kernel
  obtain ⟨hsave, hload⟩ := load_save hobtained Store.empty "plan.json"
  obtain ⟨s', hs'⟩ := hsave ⟨_, htarget⟩
  obtain ⟨-, hloaded, hagain⟩ := hload s' hs'
  exact ⟨hobtained, s', hs', hloaded, hagain⟩

end Plan

end Stencil
