import Stencil.Proofs.Renaming
import Stencil.Proofs.Writing

/-! Stamping can be undone. A replacement leaves bytes from which the value that it replaced can be told, and a
    renaming gives no two identifiers of a pool one name; so the replacements turned round, in reverse order, and the
    renaming of what was renamed make the template again from what was stamped, byte for byte. -/

namespace Stencil

/-! ### Replacements -/

/-- The replacement that puts back what was expected. -/
def Replacement.swap (e : Replacement) : Replacement := ⟨e.index, e.value, e.expected, e.type_expected.symm⟩

theorem Module.withData_withData {m : Module} {index : Nat} {v : Value} (h : m.valueAt index = .ok v)
    (data : List UInt8) : (m.withData index data).withData index v.encode = m := by
  obtain ⟨c, hc, -, -, hdata⟩ := valueAt_eq_ok_iff.mp h
  have hconstants : ((m.withData index data).withData index v.encode).constants = m.constants := by
    refine List.ext_getElem? fun i => ?_
    by_cases hi : index = i
    · subst hi
      rw [withData, List.getElem?_modify_eq, withData, List.getElem?_modify_eq, hc, ← hdata]
      rfl
    · rw [getElem?_withData_ne hi, getElem?_withData_ne hi]
  exact congrArg (fun constants => { m with constants }) hconstants

namespace Edit

theorem forM_replace_append {es : List Replacement} {m m' : Module} (h : es.forM replace m = .ok () m')
    (es' : List Replacement) : (es ++ es').forM replace m = es'.forM replace m' := by
  induction es generalizing m with
  | nil =>
    cases h
    rfl
  | cons e es ih =>
    obtain ⟨hvalue, h⟩ := forM_replace_cons_iff.mp h
    rw [List.cons_append, List.forM, bind_of_ok (replace_of_value hvalue)]
    exact ih h

theorem replace_swap {e : Replacement} (he : e.value.Short) {m : Module} (h : m.valueAt e.index = .ok e.expected)
    (r : Renaming) : replace e.swap ((m.withData e.index e.value.encode).renamed r) = .ok () (m.renamed r) := by
  have hvalue : ((m.withData e.index e.value.encode).renamed r).valueAt e.swap.index = .ok e.swap.expected :=
    Module.valueAt_withData h e.type_expected he
  have hback := Module.withData_withData h e.value.encode
  exact (replace_of_value hvalue).trans (congrArg (fun m => EStateM.Result.ok () (Module.renamed m r)) hback)

/-- Replacements are undone from the last one to the first, whatever the identifiers are called then. -/
theorem forM_replace_swap {es : List Replacement} (hes : ∀ e ∈ es, e.value.Short) {m m' : Module}
    (h : es.forM replace m = .ok () m') (r : Renaming) :
    (es.reverse.map Replacement.swap).forM replace (m'.renamed r) = .ok () (m.renamed r) := by
  induction es generalizing m with
  | nil =>
    cases h
    rfl
  | cons e es ih =>
    obtain ⟨he, hes⟩ := List.forall_mem_cons.mp hes
    obtain ⟨hvalue, h⟩ := forM_replace_cons_iff.mp h
    rw [List.reverse_cons, List.map_append, forM_replace_append (ih hes h)]
    exact bind_of_ok (replace_swap he hvalue r)

end Edit

/-! ### Undoing a plan -/

namespace Module

/-- The names that identifiers have in `m'` where they have others in `m`, each with the other. -/
def changes (m m' : Module) : List (String × String) :=
  (m'.identifiers.zip m.identifiers).filter fun e => e.1 ≠ e.2

theorem changes_renamed {m m' : Module} {r : Renaming} (h : m'.identifiers = m.identifiers.map r.apply) :
    m.changes m' = (m.identifiers.filter fun name => r.apply name ≠ name).map fun name => (r.apply name, name) := by
  have hzip : (m.identifiers.map r.apply).zip m.identifiers = m.identifiers.map fun name => (r.apply name, name) := by
    have hboth : (m.identifiers.map r.apply).zip (m.identifiers.map id) = _ := List.zip_map'
    rw [List.map_id] at hboth
    exact hboth
  rw [changes, h, hzip, List.filter_map]
  rfl

theorem mem_changes {m m' : Module} {r : Renaming} (h : m'.identifiers = m.identifiers.map r.apply) {name : String}
    (hname : name ∈ m.identifiers) (hchanged : r.apply name ≠ name) : (r.apply name, name) ∈ m.changes m' := by
  rw [changes_renamed h]
  exact List.mem_map.mpr ⟨name, List.mem_filter.mpr ⟨hname, by simpa using hchanged⟩, rfl⟩

/-- The renaming that gives the identifiers of `m'` the names that they have in `m`. -/
def restoring (m m' : Module) : Renaming := Renaming.empty.insertAll (m.changes m')

end Module

namespace Edit.Renames
variable {r : Renaming} {m m' : Module} (h : Renames r m) (hidentifiers : m'.identifiers = m.identifiers.map r.apply)
include h hidentifiers

theorem nodup_changes : ((m.changes m').map (·.1)).Nodup := by
  rw [Module.changes_renamed hidentifiers, List.map_map]
  refine List.nodup_iff_count_le_one.mpr fun target => ?_
  by_cases htarget : target ∈ (m.identifiers.filter fun name => r.apply name ≠ name).map r.apply
  · obtain ⟨name, hname, rfl⟩ := List.mem_map.mp htarget
    rw [List.mem_filter, decide_eq_true_eq] at hname
    have hsub : ((m.identifiers.filter fun name => r.apply name ≠ name).map r.apply).Sublist
        (m.identifiers.map r.apply) := List.filter_sublist.map r.apply
    exact (hsub.count_le _).trans (h.count_le_one hname.1 hname.2)
  · exact (List.count_eq_zero_of_not_mem htarget).trans_le (Nat.zero_le 1)

/-- Every identifier of the pool gets its name back. -/
theorem restoring_apply {name : String} (hname : name ∈ m.identifiers) :
    (m.restoring m').apply (r.apply name) = name := by
  by_cases hchanged : r.apply name = name
  · have hmem : r.apply name ∉ (m.changes m').map (·.1) := by
      intro hmem
      rw [Module.changes_renamed hidentifiers, List.map_map] at hmem
      obtain ⟨other, hother, heq⟩ := List.mem_map.mp hmem
      rw [List.mem_filter, decide_eq_true_eq] at hother
      obtain rfl := h.apply_inj hother.1 hname heq
      exact hother.2 hchanged
    exact (Renaming.apply_of_none (Renaming.get?_insertAll_of_not_mem hmem _)).trans hchanged
  · have hmem := Module.mem_changes hidentifiers hname hchanged
    exact Renaming.apply_of_some (Renaming.get?_insertAll_of_mem (h.nodup_changes hidentifiers) hmem _)

theorem map_restoring : (m.identifiers.map r.apply).map (m.restoring m').apply = m.identifiers := by
  rw [List.map_map]
  exact (List.map_congr_left fun name hname => h.restoring_apply hidentifiers hname).trans (List.map_id _)

/-- The names that are given back are new names of the renamed pool. -/
theorem restoring (hsize : ∀ name ∈ m.identifiers, Utf8.size name ≤ maxIdentifierLength)
    (hnames : ∀ e ∈ m.changes m', isIdentifier e.2) : Renames (m.restoring m') (m.renamed r) := by
  have hnew : ∀ name ∈ (m.renamed r).newNames (m.restoring m'), name ∈ m.identifiers ∧ r.apply name ≠ name := by
    intro name hname
    obtain ⟨renamed, hrenamed, hname⟩ := List.mem_filterMap.mp hname
    obtain ⟨old, hold, rfl⟩ := List.mem_map.mp hrenamed
    rw [h.restoring_apply hidentifiers hold] at hname
    split at hname
    · cases hname
    · rename_i hchanged
      cases hname
      exact ⟨hold, fun heq => hchanged heq.symm⟩
  refine ⟨(m.dangling?_renamed r).trans h.references, fun name hname => ?_, fun name hname => ?_⟩
  · obtain ⟨hmem, hchanged⟩ := hnew name hname
    rw [isNewName, Bool.and_eq_true, decide_eq_true_eq]
    exact ⟨hnames _ (Module.mem_changes hidentifiers hmem hchanged), hsize name hmem⟩
  · obtain ⟨hmem, hchanged⟩ := hnew name hname
    have hcount : m.identifiers.count name ≤ (m.identifiers.map r.apply).count (r.apply name) :=
      List.count_le_count_map
    rw [show ((m.renamed r).identifiers.map (m.restoring m').apply) = m.identifiers from h.map_restoring hidentifiers]
    exact hcount.trans (h.count_le_one hmem hchanged)

end Edit.Renames

/-- The plan that undoes a plan which made `m'` of `m`. -/
def Plan.undo (p : Plan) (m m' : Module) : Plan where
  constants := p.constants.reverse.map Replacement.swap
  renames := m.restoring m'

theorem Plan.apply_undo {p : Plan} (hp : ∀ e ∈ p.constants, e.value.Short) {m m' : Module} (h : m.WellFormed)
    (happly : p.apply m = .ok m') (hnames : ∀ e ∈ m.changes m', isIdentifier e.2) :
    (p.undo m m').apply m' = .ok m := by
  obtain ⟨⟨-, hr⟩, hm'⟩ := (apply_eq_ok_iff hp).mp happly
  obtain ⟨m₁, hconstants, -, rfl⟩ := apply_eq_ok_iff_steps.mp happly
  have hidentifiers : (m₁.renamed p.renames).identifiers = m.identifiers.map p.renames.apply := by
    rw [hm']
    rfl
  refine apply_eq_ok_iff_steps.mpr ⟨m.renamed p.renames, Edit.forM_replace_swap hp hconstants p.renames,
    hr.restoring hidentifiers h.identifiers hnames, ?_⟩
  exact congrArg (fun identifiers => { m with identifiers }) (hr.map_restoring hidentifiers).symm

/-- Stamping loses nothing. No two identifiers that were renamed have one name, and what was stamped is stamped back
    to the template if the names that it had are identifiers. -/
theorem stamp_undo {template out : List UInt8} {p : Plan} (hp : ∀ e ∈ p.constants, e.value.Obtained)
    (hlength : template.length < 2 ^ 32) (hout : stamp template p = .ok out) :
    ∃ m m', Module.decode template = .ok m ∧ Module.decode out = .ok m' ∧ ((m.changes m').map (·.1)).Nodup ∧
      ((∀ e ∈ m.changes m', isIdentifier e.2) → stamp out (p.undo m m') = .ok template) := by
  have hshort : ∀ e ∈ p.constants, e.value.Short := fun e he => (hp e he).short
  obtain ⟨m, m', hm, happly, -, hm'⟩ := exists_of_stamp hout
  have hwell := Module.wellFormed_of_decode hm
  obtain ⟨⟨-, hr⟩, heq⟩ := (Plan.apply_eq_ok_iff hshort).mp happly
  have hidentifiers : m'.identifiers = m.identifiers.map p.renames.apply := by
    rw [heq]
    rfl
  refine ⟨m, m', hm, hm', hr.nodup_changes hidentifiers, fun hnames => ?_⟩
  have hencode : m.encode = .ok template := by
    have hspell := Module.eq_spell_of_decode hm
    have hcontents : m.contents.length ≤ maxLength := by
      rw [hspell] at hlength
      simp only [Module.spell, Module.body, List.length_append] at hlength
      unfold maxLength
      omega
    rw [hwell.listed.encode_eq, Module.excess?_eq_none_iff.mpr hcontents, ← hspell]
  rw [stamp_eq hm', Plan.apply_undo hshort hwell happly hnames]
  exact hencode

/-- A plan for the sample that replaces one constant twice and gives its two identifiers the names of each other. -/
def Plan.exchange : Plan where
  constants := [⟨0, .uint .w8 5, .uint .w8 9, by decide⟩, ⟨0, .uint .w8 9, .uint .w8 7, by decide⟩]
  renames := Renaming.empty.insertAll [("papa", "PAPA"), ("PAPA", "papa")]

/-- The sample as the plan leaves it. -/
def Module.exchanged : Module := { Module.sample with
  identifiers := ["PAPA", "papa"]
  constants := [⟨.uint .w8, [7]⟩, ⟨.vector (.uint .w8), [1, 0x61]⟩] }

def Module.exchangedBytes : List UInt8 :=
  [0xA1, 0x1C, 0xEB, 0x0B, 4, 0, 0, 0x0A, 4] ++ [0x06, 10, 8, 0x10, 0, 0, 0x07, 0, 10, 0x0F, 0, 0] ++
    [4, 0x50, 0x41, 0x50, 0x41, 4, 0x70, 0x61, 0x70, 0x61] ++ [2, 1, 7, 10, 2, 2, 1, 0x61]

open Stencil.Module in
theorem stamp_undo_exchange : (∀ e ∈ Plan.exchange.constants, e.value.Obtained) ∧ sampleBytes.length < 2 ^ 32 ∧
    stamp sampleBytes .exchange = .ok exchangedBytes ∧ decode sampleBytes = .ok sample ∧
    decode exchangedBytes = .ok exchanged ∧ ((sample.changes exchanged).map (·.1)).Nodup ∧
    (∀ e ∈ sample.changes exchanged, isIdentifier e.2) ∧
    stamp exchangedBytes (Plan.exchange.undo sample exchanged) = .ok sampleBytes := by
  have hobtained : ∀ e ∈ Plan.exchange.constants, e.value.Obtained := by
    intro e he
    simp only [Plan.exchange, List.mem_cons, List.not_mem_nil, or_false] at he
    rcases he with rfl | rfl
    · exact .inl ⟨"9", by decide +kernel⟩
    · exact .inl ⟨"7", by decide +kernel⟩
  have hlength : sampleBytes.length < 2 ^ 32 := by decide
  have hstamp : stamp sampleBytes .exchange = .ok exchangedBytes := by decide +kernel
  have hsample : decode sampleBytes = .ok sample := by decide +kernel
  have hexchanged : decode exchangedBytes = .ok exchanged := by decide +kernel
  have hnames : ∀ e ∈ sample.changes exchanged, isIdentifier e.2 := by decide +kernel
  obtain ⟨m, m', hm, hm', hnodup, hundo⟩ := stamp_undo hobtained hlength hstamp
  obtain rfl : sample = m := Except.ok.inj (hsample.symm.trans hm)
  obtain rfl : exchanged = m' := Except.ok.inj (hexchanged.symm.trans hm')
  exact ⟨hobtained, hlength, hstamp, hsample, hexchanged, hnodup, hnames, hundo hnames⟩

end Stencil
