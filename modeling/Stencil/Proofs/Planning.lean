import Stencil.Proofs.Editing
import Stencil.Proofs.RoundTrip

/-! What a plan does. Replacements of one constant form a chain, each expecting the value that the one before it
    wrote; replacements of different constants do not see one another. So a plan is told by its replacements at
    each index and by its renaming, and of each constant only the last replacement shows in the result. -/

namespace Stencil

namespace Replacement

/-- The replacements at an index, in their order. -/
def editsAt (es : List Replacement) (index : Nat) : List Replacement := es.filter (·.index = index)

/-- Each replacement expects the value that the one before it leaves, and the first one expects `v`. -/
def Chained : Value → List Replacement → Prop
  | _, [] => True
  | v, e :: es => e.expected = v ∧ Chained e.value es

/-- The constant that replacements leave of a constant. -/
def revise (es : List Replacement) (c : Constant) : Constant :=
  es.foldl (fun c e => { c with data := e.value.encode }) c

theorem editsAt_cons_self (e : Replacement) (es : List Replacement) :
    editsAt (e :: es) e.index = e :: editsAt es e.index :=
  List.filter_cons_of_pos (by simp)

theorem editsAt_cons_ne {e : Replacement} {index : Nat} (h : e.index ≠ index) (es : List Replacement) :
    editsAt (e :: es) index = editsAt es index :=
  List.filter_cons_of_neg (by simpa using h)

/-- Of several replacements the last one shows. -/
theorem revise_of_getLast? {es : List Replacement} {e : Replacement} (h : es.getLast? = some e) (c : Constant) :
    revise es c = { c with data := e.value.encode } := by
  obtain ⟨before, rfl⟩ := List.getLast?_eq_some_iff.mp h
  have htype (es : List Replacement) (c : Constant) : (revise es c).type = c.type := by
    induction es generalizing c with
    | nil => rfl
    | cons e es ih => exact ih _
  have hlast : revise (before ++ [e]) c = { revise before c with data := e.value.encode } := List.foldl_append
  rw [hlast]
  exact congrArg (Constant.mk · e.value.encode) (htype before c)

/-- Replacements of one constant whose value is, or fails to be, `x` can be made. -/
def Follows (x : Except Error Value) : List Replacement → Prop
  | [] => True
  | e :: es => x = .ok e.expected ∧ Chained e.value es

theorem follows_ok {v : Value} {es : List Replacement} : Follows (.ok v) es ↔ Chained v es := by
  cases es with
  | nil => exact Iff.rfl
  | cons e es => simp [Follows, Chained, eq_comm]

theorem follows_congr {x y : Except Error Value} (h : ∀ v, x = .ok v ↔ y = .ok v) {es : List Replacement} :
    Follows x es ↔ Follows y es := by
  cases es with
  | nil => exact Iff.rfl
  | cons e es => exact and_congr_left fun _ => h e.expected

end Replacement

namespace Module
open Replacement

/-- The module with every constant as replacements leave it. -/
def revised (m : Module) (es : List Replacement) : Module :=
  { m with constants := m.constants.mapIdx fun index c => revise (editsAt es index) c }

theorem getElem?_revised (m : Module) (es : List Replacement) (index : Nat) :
    (m.revised es).constants[index]? = (m.constants[index]?).map (revise (editsAt es index)) :=
  List.getElem?_mapIdx

theorem revised_nil (m : Module) : m.revised [] = m := by
  have h : (m.revised []).constants = m.constants := by
    refine List.ext_getElem? fun index => ?_
    rw [getElem?_revised]
    cases m.constants[index]? <;> rfl
  exact congrArg (fun constants => { m with constants }) h

theorem revised_cons (m : Module) (e : Replacement) (es : List Replacement) :
    (m.withData e.index e.value.encode).revised es = m.revised (e :: es) := by
  have h : ((m.withData e.index e.value.encode).revised es).constants = (m.revised (e :: es)).constants := by
    refine List.ext_getElem? fun index => ?_
    rw [getElem?_revised, getElem?_revised]
    by_cases hindex : e.index = index
    · subst hindex
      rw [editsAt_cons_self, withData, List.getElem?_modify_eq]
      cases m.constants[e.index]? <;> rfl
    · rw [editsAt_cons_ne hindex, getElem?_withData_ne hindex]
  exact congrArg (fun constants => { m with constants }) h

end Module

namespace Edit
open Replacement

/-- What the first of several replacements needs, and what it leaves to the others. -/
theorem follows_cons_iff {m : Module} {e : Replacement} {es : List Replacement} (hshort : e.value.Short) :
    (∀ index, Follows (m.valueAt index) (editsAt (e :: es) index)) ↔ m.valueAt e.index = .ok e.expected ∧
      ∀ index, Follows ((m.withData e.index e.value.encode).valueAt index) (editsAt es index) := by
  have hself (h : m.valueAt e.index = .ok e.expected) :
      (m.withData e.index e.value.encode).valueAt e.index = .ok e.value :=
    Module.valueAt_withData h e.type_expected hshort
  have hne {index : Nat} (h : e.index ≠ index) {es : List Replacement} :
      Follows ((m.withData e.index e.value.encode).valueAt index) es ↔ Follows (m.valueAt index) es :=
    follows_congr fun _ => Module.valueAt_congr (Module.getElem?_withData_ne h m _)
  constructor
  · intro h
    have hfirst := h e.index
    rw [editsAt_cons_self] at hfirst
    refine ⟨hfirst.1, fun index => ?_⟩
    by_cases hindex : e.index = index
    · subst hindex
      rw [hself hfirst.1, follows_ok]
      exact hfirst.2
    · rw [hne hindex, ← editsAt_cons_ne hindex]
      exact h index
  · rintro ⟨hfirst, h⟩ index
    by_cases hindex : e.index = index
    · subst hindex
      have hrest := h e.index
      rw [hself hfirst, follows_ok] at hrest
      rw [editsAt_cons_self]
      exact ⟨hfirst, hrest⟩
    · rw [editsAt_cons_ne hindex, ← hne hindex]
      exact h index

/-- Replacements succeed exactly if those of each constant form a chain from the constant's value. -/
theorem forM_replace_eq_ok_iff {es : List Replacement} (hshort : ∀ e ∈ es, e.value.Short) {m m' : Module} :
    es.forM replace m = .ok () m' ↔
      (∀ index, Follows (m.valueAt index) (editsAt es index)) ∧ m' = m.revised es := by
  -- The module is general: the first replacement leaves another one to those after it.
  induction es generalizing m with
  | nil =>
    rw [List.forM, m.revised_nil]
    constructor
    · intro h
      cases h
      exact ⟨fun _ => trivial, rfl⟩
    · intro h'
      obtain ⟨-, rfl⟩ := h'
      rfl
  | cons e es ih =>
    obtain ⟨he, hes⟩ := List.forall_mem_cons.mp hshort
    rw [forM_replace_cons_iff, follows_cons_iff he, ih hes, m.revised_cons, and_assoc]

end Edit

namespace Plan
open Replacement

/-- What a plan needs of the constants of a module. -/
def Applicable (p : Plan) (m : Module) : Prop := ∀ index, editsAt p.constants index ≠ [] →
  ∃ c v, m.constants[index]? = some c ∧ (∀ e ∈ editsAt p.constants index, c.type = e.type.signature) ∧
    m.valueAt index = .ok v ∧ Chained v (editsAt p.constants index)

theorem chained_types {v : Value} {es : List Replacement} (h : Chained v es) : ∀ e ∈ es, e.type = v.type := by
  induction es generalizing v with
  | nil => simp
  | cons e es ih =>
    obtain ⟨rfl, hrest⟩ := h
    have htype : e.type = e.expected.type := e.type_expected.symm
    refine List.forall_mem_cons.mpr ⟨htype, fun e' he' => (ih hrest e' he').trans htype⟩

/-- That replacements have the type of their constant follows from the chain. -/
theorem applicable_iff {p : Plan} {m : Module} :
    p.Applicable m ↔ ∀ index, Follows (m.valueAt index) (editsAt p.constants index) := by
  refine forall_congr' fun index => ?_
  constructor
  · intro h
    cases hes : editsAt p.constants index with
    | nil => trivial
    | cons e es =>
      obtain ⟨c, v, -, -, hvalue, hchained⟩ := h (by rw [hes]; exact List.cons_ne_nil e es)
      rw [hvalue, follows_ok, ← hes]
      exact hchained
  · intro h hne
    obtain ⟨e, es, hes⟩ := List.exists_cons_of_ne_nil hne
    have hvalue : m.valueAt index = .ok e.expected := by
      rw [hes] at h
      exact h.1
    rw [hvalue, follows_ok] at h
    obtain ⟨c, hc, htype, -⟩ := Module.valueAt_eq_ok_iff.mp hvalue
    refine ⟨c, e.expected, hc, fun e' he' => ?_, hvalue, h⟩
    rw [htype, chained_types h e' he']

/-- Renaming does not look at the constants. -/
theorem renames_revised_iff {r : Renaming} {m : Module} {es : List Replacement} :
    Edit.Renames r (m.revised es) ↔ Edit.Renames r m := by
  have hdangling : (m.revised es).dangling? = m.dangling? := Module.dangling?_congr rfl rfl rfl rfl
  constructor
  · intro h
    obtain ⟨hreferences, hnames, hsingle⟩ := h
    exact ⟨hdangling ▸ hreferences, hnames, hsingle⟩
  · intro h
    obtain ⟨hreferences, hnames, hsingle⟩ := h
    exact ⟨hdangling.trans hreferences, hnames, hsingle⟩

/-- What a plan makes of a module, and when it does. -/
theorem apply_eq_ok_iff {p : Plan} (hp : ∀ e ∈ p.constants, e.value.Short) {m m' : Module} : p.apply m = .ok m' ↔
    (p.Applicable m ∧ Edit.Renames p.renames m) ∧ m' = (m.revised p.constants).renamed p.renames := by
  rw [apply_eq_ok_iff_steps, applicable_iff]
  constructor
  · rintro ⟨m₁, hconstants, hr, rfl⟩
    obtain ⟨hfollows, rfl⟩ := (Edit.forM_replace_eq_ok_iff hp).mp hconstants
    exact ⟨⟨hfollows, renames_revised_iff.mp hr⟩, rfl⟩
  · rintro ⟨⟨hfollows, hr⟩, rfl⟩
    exact ⟨_, (Edit.forM_replace_eq_ok_iff hp).mpr ⟨hfollows, rfl⟩, renames_revised_iff.mpr hr, rfl⟩

theorem rename_eq_ok_iff {m m₁ : Module} {r : Renaming} {count : Nat} : m.rename r = .ok (m₁, count) ↔
    Edit.Renames r m ∧ m₁ = m.renamed r ∧ count = (m.newNames r).length := by
  unfold Module.rename Edit.result
  rcases Edit.rename_cases r m with ⟨hr, heq⟩ | ⟨hr, error, heq⟩
  · rw [heq]
    simp [hr, eq_comm]
  · rw [heq]
    simp [hr]

/-- A plan that can be applied leaves the value of the last replacement at each index. -/
theorem valueAt_revised {p : Plan} (hp : ∀ e ∈ p.constants, e.value.Short) {m : Module} (h : p.Applicable m)
    {index : Nat} {e : Replacement} (he : (editsAt p.constants index).getLast? = some e) :
    (m.revised p.constants).valueAt index = .ok e.value := by
  have hmem : e ∈ editsAt p.constants index := List.mem_of_getLast? he
  obtain ⟨c, v, hc, htypes, -, -⟩ := h index (List.ne_nil_of_mem hmem)
  refine Module.valueAt_eq_ok_iff.mpr ⟨{ c with data := e.value.encode }, ?_, htypes e hmem, ?_, rfl⟩
  · rw [Module.getElem?_revised, hc, Option.map_some, revise_of_getLast? he]
  · exact hp e (List.mem_filter.mp hmem).1

/-- `m'` is `m` with the replacements and the renaming of a plan done, and nothing else. -/
structure Done (p : Plan) (m m' : Module) : Prop where
  edited : ∀ index e, (editsAt p.constants index).getLast? = some e → m'.valueAt index = .ok e.value
  unedited : ∀ index, editsAt p.constants index = [] → m'.constants[index]? = m.constants[index]?
  constants : m'.constants.length = m.constants.length
  identifiers : ∃ m₁ count, m.rename p.renames = .ok (m₁, count) ∧ m'.identifiers = m₁.identifiers
  versionWord : m'.versionWord = m.versionWord
  directory : m'.directory = m.directory
  layout : m'.layout = m.layout
  addresses : m'.addresses = m.addresses
  handles : m'.handles = m.handles
  selfHandle : m'.selfHandle = m.selfHandle

theorem done_of_apply {p : Plan} (hp : ∀ e ∈ p.constants, e.value.Short) {m m' : Module} (h : p.apply m = .ok m') :
    p.Done m m' := by
  obtain ⟨⟨happlicable, hr⟩, rfl⟩ := (apply_eq_ok_iff hp).mp h
  exact {
    edited := fun index e he => (Module.valueAt_congr rfl).mpr (valueAt_revised hp happlicable he)
    unedited := fun index hindex => by
      change (m.revised p.constants).constants[index]? = _
      rw [Module.getElem?_revised, hindex]
      cases m.constants[index]? <;> rfl
    constants := List.length_mapIdx
    identifiers := ⟨_, _, rename_eq_ok_iff.mpr ⟨hr, rfl, rfl⟩, rfl⟩
    versionWord := rfl
    directory := rfl
    layout := rfl
    addresses := rfl
    handles := rfl
    selfHandle := rfl }

/-- Plans with the same renaming and the same replacements at each index do the same, however their replacements
    at different indices are interleaved. -/
theorem apply_congr {p q : Plan} (hp : ∀ e ∈ p.constants, e.value.Short) (hrenames : q.renames = p.renames)
    (hedits : ∀ index, editsAt q.constants index = editsAt p.constants index) {m m' : Module} :
    q.apply m = .ok m' ↔ p.apply m = .ok m' := by
  have hq : ∀ e ∈ q.constants, e.value.Short := by
    intro e he
    have hmem : e ∈ editsAt q.constants e.index := List.mem_filter.mpr ⟨he, by simp⟩
    rw [hedits] at hmem
    exact hp e (List.mem_filter.mp hmem).1
  rw [apply_eq_ok_iff hp, apply_eq_ok_iff hq, applicable_iff, applicable_iff, hrenames]
  simp only [Module.revised, hedits]

/-- The exact meaning of a plan: when it can be applied to a module, what it makes of the module, and that this
    does not depend on how replacements at different indices are interleaved. -/
theorem apply_spec (p : Plan) (m : Module) (hp : ∀ e ∈ p.constants, e.value.Obtained) :
    ((∃ m', p.apply m = .ok m') ↔ p.Applicable m ∧ ∃ renamed, m.rename p.renames = .ok renamed) ∧
      (∀ m', p.apply m = .ok m' → p.Done m m') ∧
      ∀ q : Plan, q.renames = p.renames → (∀ index, editsAt q.constants index = editsAt p.constants index) →
        ∀ m', q.apply m = .ok m' ↔ p.apply m = .ok m' := by
  have hshort : ∀ e ∈ p.constants, e.value.Short := fun e he => (hp e he).short
  refine ⟨?_, fun m' h => done_of_apply hshort h, fun q hrenames hedits m' => apply_congr hshort hrenames hedits⟩
  constructor
  · intro h'
    obtain ⟨m', h⟩ := h'
    obtain ⟨⟨happlicable, hr⟩, -⟩ := (apply_eq_ok_iff hshort).mp h
    exact ⟨happlicable, _, rename_eq_ok_iff.mpr ⟨hr, rfl, rfl⟩⟩
  · intro h'
    obtain ⟨happlicable, ⟨m₁, count⟩, h⟩ := h'
    exact ⟨_, (apply_eq_ok_iff hshort).mpr ⟨⟨happlicable, (rename_eq_ok_iff.mp h).1⟩, rfl⟩⟩

/-- A plan for the sample: two replacements of one constant with one of the other constant in between. -/
def sample : Plan where
  constants := [
    ⟨0, .uint .w8 5, .uint .w8 6, rfl⟩,
    ⟨1, .string "a", .string "stamp", rfl⟩,
    ⟨0, .uint .w8 6, .uint .w8 7, rfl⟩]
  renames := .ofModule "papa" "joke"

/-- The sample as its plan leaves it. -/
def sampleEdited : Module := { Module.sample with
  identifiers := ["joke", "JOKE"]
  constants := [⟨.uint .w8, [7]⟩, ⟨.vector (.uint .w8), [5, 0x73, 0x74, 0x61, 0x6D, 0x70]⟩] }

theorem apply_sample : (∀ e ∈ sample.constants, e.value.Obtained) ∧ sample.Applicable Module.sample ∧
    sample.apply Module.sample = .ok sampleEdited ∧ sample.Done Module.sample sampleEdited :=
  have hobtained : ∀ e ∈ sample.constants, e.value.Obtained := by
    intro e he
    simp only [sample, List.mem_cons, List.not_mem_nil, or_false] at he
    rcases he with rfl | rfl | rfl
    · exact .inl ⟨"6", by decide +kernel⟩
    · exact .inl ⟨"stamp", by decide +kernel⟩
    · exact .inl ⟨"7", by decide +kernel⟩
  have happly : sample.apply Module.sample = .ok sampleEdited := by decide +kernel
  have hspec := apply_spec sample Module.sample hobtained
  ⟨hobtained, (hspec.1.mp ⟨sampleEdited, happly⟩).1, happly, hspec.2.1 sampleEdited happly⟩

end Plan

end Stencil
