import Stencil.Proofs.Position
import Stencil.Proofs.Renaming

/-! The frame of stamping. A plan that keeps lengths moves nothing: outside the data of the constants that it
    replaces and the text of the identifiers that it renames, every byte is what it was in the template. -/

namespace Stencil

/-! ### Bytes that agree -/

/-- Bytes that stand at `start` and others in their place are the same wherever they are not free to differ. -/
def Agree (free : Nat → Prop) (start : Nat) (u v : List UInt8) : Prop :=
  v.length = u.length ∧ ∀ i, v[i]? = u[i]? ∨ free (start + i)

namespace Agree
variable {free : Nat → Prop} {start : Nat} {u v u' v' : List UInt8}

theorem refl (free : Nat → Prop) (start : Nat) (u : List UInt8) : Agree free start u u :=
  ⟨rfl, fun _ => .inl rfl⟩

theorem of_free (hlength : v.length = u.length) (hfree : ∀ i < u.length, free (start + i)) :
    Agree free start u v := by
  refine ⟨hlength, fun i => ?_⟩
  by_cases hi : i < u.length
  · exact .inr (hfree i hi)
  · left
    rw [List.getElem?_eq_none (by omega), List.getElem?_eq_none (by omega)]

theorem append (h : Agree free start u v) (h' : Agree free (start + u.length) u' v') :
    Agree free start (u ++ u') (v ++ v') := by
  obtain ⟨hlength, hplaces⟩ := h
  obtain ⟨hlength', hplaces'⟩ := h'
  refine ⟨by rw [List.length_append, List.length_append, hlength, hlength'], fun i => ?_⟩
  by_cases hi : i < u.length
  · rw [List.getElem?_append_left hi, List.getElem?_append_left (by omega)]
    exact hplaces i
  · rw [List.getElem?_append_right (by omega), List.getElem?_append_right (by omega), hlength]
    rcases hplaces' (i - u.length) with hsame | hfree
    · exact .inl hsame
    · rw [show start + u.length + (i - u.length) = start + i by omega] at hfree
      exact .inr hfree

/-- Lists of the same length agree if what stands at each index does. -/
theorem flatMap {α β : Type} {f : α → List UInt8} {g : β → List UInt8} {as : List α} {bs : List β}
    (hlength : bs.length = as.length) (h : ∀ index a b, as[index]? = some a → bs[index]? = some b →
      Agree free (start + ((as.take index).flatMap f).length) (f a) (g b)) :
    Agree free start (as.flatMap f) (bs.flatMap g) := by
  induction as generalizing start bs with
  | nil =>
    obtain rfl := List.length_eq_zero_iff.mp hlength
    exact refl free start []
  | cons a as ih =>
    obtain ⟨b, bs, rfl⟩ := List.exists_cons_of_length_eq_add_one hlength
    refine (h 0 a b rfl rfl).append (ih (by simpa using hlength) fun index a' b' ha hb => ?_)
    have hnext := h (index + 1) a' b' ha hb
    rw [List.take_succ_cons, List.flatMap_cons, List.length_append, ← Nat.add_assoc] at hnext
    exact hnext

end Agree

/-! ### Edits that keep lengths -/

/-- A string is replaced with one that has as many bytes. Values of any other type have as many anyway. -/
def Replacement.KeepsLength (e : Replacement) : Prop :=
  ∀ s t, e.expected = .string s → e.value = .string t → Utf8.size t = Utf8.size s

theorem Replacement.KeepsLength.length_encode {e : Replacement} (h : e.KeepsLength) :
    e.value.encode.length = e.expected.encode.length := by
  obtain ⟨index, expected, value, htype⟩ := e
  cases expected with
  | bool b =>
    cases value with
    | bool b' => rfl
    | _ => cases htype
  | uint w n =>
    cases value with
    | uint w' n' =>
      cases htype
      simp [Value.encode, Value.encodeWord_eq, LittleEndian.length_encode]
    | _ => cases htype
  | address a =>
    cases value with
    | address a' => simp [Value.encode, Address.length_bytes]
    | _ => cases htype
  | string s =>
    cases value with
    | string t =>
      have hsize : (Utf8.encode t).length = (Utf8.encode s).length := h s t rfl rfl
      simp [Value.encode, Utf8.size, hsize]
    | _ => cases htype

/-- A plan puts nothing in the place of anything longer or shorter. -/
structure Plan.KeepsLengths (p : Plan) (m : Module) : Prop where
  constants : ∀ e ∈ p.constants, e.KeepsLength
  names : ∀ e ∈ p.renames.entries, e.1 ∈ m.identifiers → Utf8.size e.2 = Utf8.size e.1

/-- Constants differ in data of the same length at most, and only at the indices of replacements. -/
def Replacement.Overwrite (es : List Replacement) (cs cs' : List Constant) : Prop :=
  cs'.length = cs.length ∧ ∀ index c c', cs[index]? = some c → cs'[index]? = some c' →
    (c'.type = c.type ∧ c'.data.length = c.data.length) ∧ (c' = c ∨ ∃ e ∈ es, e.index = index)

open Replacement in
theorem Module.overwrite_withData {m : Module} {e : Replacement} (h : e.KeepsLength)
    (hvalue : m.valueAt e.index = .ok e.expected) :
    Overwrite [e] m.constants (m.withData e.index e.value.encode).constants := by
  refine ⟨List.length_modify _ _ _, fun index c c' hc hc' => ?_⟩
  rw [withData, List.getElem?_modify, hc] at hc'
  obtain rfl := Option.some.inj hc'
  by_cases hindex : e.index = index
  · obtain ⟨c₀, hc₀, -, -, hdata⟩ := valueAt_eq_ok_iff.mp hvalue
    obtain rfl : c₀ = c := Option.some.inj (hc₀.symm.trans (hindex ▸ hc))
    simp [hindex, hdata, h.length_encode]
  · simp [hindex]

open Replacement in
theorem Edit.overwrite_of_forM {es : List Replacement} (hes : ∀ e ∈ es, e.KeepsLength) {m m' : Module}
    (h : es.forM replace m = .ok () m') :
    m' = { m with constants := m'.constants } ∧ Overwrite es m.constants m'.constants := by
  induction es generalizing m with
  | nil =>
    cases h
    refine ⟨rfl, rfl, fun index c c' hc hc' => ?_⟩
    obtain rfl := Option.some.inj (hc.symm.trans hc')
    exact ⟨⟨rfl, rfl⟩, .inl rfl⟩
  | cons e es ih =>
    obtain ⟨he, hes⟩ := List.forall_mem_cons.mp hes
    obtain ⟨hvalue, h⟩ := forM_replace_cons_iff.mp h
    obtain ⟨hsame, hlength, hrest⟩ := ih hes h
    obtain ⟨hlength₁, hfirst⟩ := Module.overwrite_withData he hvalue
    refine ⟨hsame, hlength.trans hlength₁, fun index c c' hc hc' => ?_⟩
    have hlt : index < (m.withData e.index e.value.encode).constants.length := by
      rw [hlength₁]
      exact (List.getElem?_eq_some_iff.mp hc).1
    obtain ⟨⟨htype₁, hdata₁⟩, hfirst⟩ := hfirst index c _ hc (List.getElem?_eq_getElem hlt)
    obtain ⟨⟨htype, hdata⟩, hrest⟩ := hrest index _ c' (List.getElem?_eq_getElem hlt) hc'
    refine ⟨⟨htype.trans htype₁, hdata.trans hdata₁⟩, ?_⟩
    rcases hrest with hrest | ⟨e', he', hindex⟩
    · rcases hfirst with hfirst | ⟨e', he', hindex⟩
      · exact .inl (hrest.trans hfirst)
      · exact .inr ⟨e', List.mem_cons.mpr (.inl (List.mem_singleton.mp he')), hindex⟩
    · exact .inr ⟨e', List.mem_cons_of_mem _ he', hindex⟩

/-! ### The frame -/

/-- The stretches of a module's bytes that a plan writes: the data of the constants that it replaces and the texts
    of the identifiers that it renames. -/
inductive Plan.Writes (p : Plan) (m : Module) : Span → Prop
  | payload {e : Replacement} {s : Span} (he : e ∈ p.constants) (hs : m.payload? e.index = some s) : Writes p m s
  | text {index : Nat} {name : String} {s : Span} (hname : m.identifiers[index]? = some name)
    (hrenamed : p.renames.apply name ≠ name) (hs : m.text? index = some s) : Writes p m s

/-- A place where a plan may write. -/
def Plan.Free (p : Plan) (m : Module) (place : Nat) : Prop := ∃ s, p.Writes m s ∧ s.Has place

namespace Plan
variable {p : Plan} {m m' : Module}

theorem agree_constant {index start : Nat} {c c' : Constant} (hc : m.constants[index]? = some c)
    (hstart : m.recordStart? .constants index = some start)
    (hsame : c'.type = c.type ∧ c'.data.length = c.data.length)
    (hedit : c' = c ∨ ∃ e ∈ p.constants, e.index = index) : Agree (p.Free m) start c.encode c'.encode := by
  obtain ⟨htype, hlength⟩ := hsame
  rcases hedit with rfl | ⟨e, he, rfl⟩
  · exact .refl _ _ _
  · have hencode : c'.encode = c.head ++ c'.data := by
      rw [Constant.head, ← htype, ← hlength]
      rfl
    have hpayload : m.payload? e.index = some ⟨start + c.head.length, c.data.length⟩ := by
      simp [Module.payload?, hstart, hc]
    have hdata : Agree (p.Free m) (start + c.head.length) c.data c'.data :=
      .of_free hlength fun i hi => ⟨_, .payload he hpayload, by simp only [Span.Has]; omega⟩
    rw [hencode]
    exact (Agree.refl _ start c.head).append hdata

theorem agree_identifier (hp : p.KeepsLengths m) {index start : Nat} {name : String}
    (hname : m.identifiers[index]? = some name) (hstart : m.recordStart? .identifiers index = some start) :
    Agree (p.Free m) start (encodeIdentifier name) (encodeIdentifier (p.renames.apply name)) := by
  by_cases hrenamed : p.renames.apply name = name
  · rw [hrenamed]
    exact .refl _ _ _
  · have hsize : Utf8.size (p.renames.apply name) = Utf8.size name :=
      hp.names (name, p.renames.apply name) (Renaming.mem_of_apply_ne hrenamed) (List.mem_of_getElem? hname)
    have htext : m.text? index =
        some ⟨start + (Uleb128.encode (Utf8.size name)).length, Utf8.size name⟩ := by
      simp [Module.text?, hstart, hname]
    have hchars : Agree (p.Free m) (start + (Uleb128.encode (Utf8.size name)).length) (Utf8.encode name)
        (Utf8.encode (p.renames.apply name)) :=
      .of_free hsize fun i hi => ⟨_, .text hname hrenamed htext, by simp only [Span.Has, Utf8.size]; omega⟩
    rw [encodeIdentifier, encodeIdentifier, hsize]
    exact (Agree.refl _ start _).append hchars

/-- Every record has as many bytes as before, and differs in the bytes only that the plan may write. -/
theorem agree_records (hp : p.KeepsLengths m) (happly : p.apply m = .ok m') (q : Pool) {start : Nat}
    (hstart : m.start? (.pool q) = some start) :
    Agree (p.Free m) start (m.encodePool q) (m'.encodePool q) := by
  obtain ⟨m₁, hconstants, -, rfl⟩ := apply_eq_ok_iff_steps.mp happly
  obtain ⟨hsame, hlength, hoverwrite⟩ := Edit.overwrite_of_forM hp.constants hconstants
  have hrecord (index : Nat) :
      m.recordStart? q index = some (start + (((m.records q).take index).flatMap q.encode).length) := by
    rw [Module.recordStart?, hstart]
    rfl
  rw [Module.encodePool_eq, Module.encodePool_eq]
  cases q with
  | constants =>
    refine .flatMap hlength fun index c c' hc hc' => ?_
    obtain ⟨hsame, hedit⟩ := hoverwrite index c c' hc hc'
    exact agree_constant hc (hrecord index) hsame hedit
  | identifiers =>
    have hidentifiers : (m₁.renamed p.renames).records .identifiers = m.identifiers.map p.renames.apply := by
      rw [hsame]
      rfl
    rw [hidentifiers]
    refine .flatMap (List.length_map _) fun index name name' hname hname' => ?_
    have hname : m.identifiers[index]? = some name := hname
    rw [List.getElem?_map, hname] at hname'
    obtain rfl := Option.some.inj hname'
    exact agree_identifier hp hname (hrecord index)
  | addresses =>
    rw [hsame]
    exact .refl _ _ _
  | moduleHandles =>
    rw [hsame]
    exact .refl _ _ _

/-- A plan that keeps lengths changes no byte that it may not write. -/
theorem agree_spell (hp : p.KeepsLengths m) (hwell : m.WellFormed) (happly : p.apply m = .ok m') :
    Agree (p.Free m) 0 (m.spell m.entries) (m'.spell m'.entries) := by
  obtain ⟨-, hkept⟩ := keeps_apply hwell happly
  have hslot {before after : List Slot} {slot : Slot} (hlayout : m.layout = before ++ slot :: after) :
      Agree (p.Free m) (m.front.length + (before.flatMap m.encodeSlot).length) (m.encodeSlot slot)
        (m'.encodeSlot slot) := by
    have hstart := Module.start?_of_layout hwell.listed hlayout
    cases slot with
    | pool q => exact agree_records hp happly q hstart
    | carried table contents => exact .refl _ _ _
  have hcontents : Agree (p.Free m) m.front.length m.contents m'.contents := by
    rw [Module.contents_eq, Module.contents_eq, hkept.layout]
    refine .flatMap rfl fun index slot slot' hs hs' => ?_
    obtain rfl := Option.some.inj (hs.symm.trans hs')
    exact hslot (Module.eq_take_cons_drop hs)
  -- No table has become longer or shorter, so the directory says what it said before.
  have hsizes : m'.sizes = m.sizes := by
    rw [Module.sizes, Module.tables_eq_map, Module.sizes, Module.tables_eq_map, hkept.layout]
    refine List.map_congr_left fun slot hs => ?_
    obtain ⟨before, after, hlayout⟩ := List.append_of_mem hs
    rw [(hslot hlayout).1]
  have hfront : m'.front = m.front := by
    rw [Module.front, Module.front, Module.entries_congr hsizes hkept.directory, hkept.versionWord]
  rw [Module.spell_entries, Module.spell_entries, hfront, hkept.selfHandle]
  refine (Agree.refl _ _ _).append ?_
  rw [Nat.zero_add]
  exact hcontents.append (.refl _ _ _)

end Plan

/-- Stamping with a plan that keeps lengths keeps the length of the template and every byte outside the data of the
    constants that are replaced and the texts of the identifiers that are renamed, which stand where `payload?` and
    `text?` say. A plan that does nothing gives the template back. -/
theorem stamp_frame {template out : List UInt8} {p : Plan} {m : Module} (hm : Module.decode template = .ok m)
    (hp : p.KeepsLengths m) (hout : stamp template p = .ok out) :
    (out.length = template.length ∧ ∀ place, out[place]? = template[place]? ∨ ∃ s, p.Writes m s ∧ s.Has place) ∧
      m.Located template ∧ ∀ out₀, stamp template .empty = .ok out₀ → out₀ = template := by
  have hagree {p : Plan} {out : List UInt8} (hp : p.KeepsLengths m) (hout : stamp template p = .ok out) :
      Agree (p.Free m) 0 template out := by
    obtain ⟨m₀, m', hm₀, happly, rfl, -⟩ := exists_of_stamp hout
    obtain rfl : m₀ = m := Except.ok.inj (hm₀.symm.trans hm)
    rw [Module.eq_spell_of_decode hm]
    exact Plan.agree_spell hp (Module.wellFormed_of_decode hm) happly
  obtain ⟨hlength, hplaces⟩ := hagree hp hout
  refine ⟨⟨hlength, fun place => ?_⟩, Module.located_of_decode hm, fun out₀ hout₀ => ?_⟩
  · have hplace := hplaces place
    rw [Nat.zero_add] at hplace
    exact hplace
  · obtain ⟨-, hplaces₀⟩ := hagree (p := .empty) ⟨by simp [Plan.empty], by simp [Plan.empty, Renaming.empty]⟩ hout₀
    refine List.ext_getElem? fun place => ?_
    rcases hplaces₀ place with hsame | ⟨s, hwrites, -⟩
    · exact hsame
    · cases hwrites with
      | payload he hs => cases he
      | text hname hrenamed hs => exact absurd rfl hrenamed

/-- A plan for the sample that keeps lengths. -/
def Plan.steady : Plan where
  constants := [⟨1, .string "a", .string "b", by decide⟩, ⟨0, .uint .w8 5, .uint .w8 8, by decide⟩]
  renames := .ofModule "papa" "joke"

/-- The bytes of the sample with its two names and its two values replaced where they stand. -/
def steadyBytes : List UInt8 :=
  [0xA1, 0x1C, 0xEB, 0x0B, 4, 0, 0, 0x0A, 4] ++ [0x06, 10, 8, 0x10, 0, 0, 0x07, 0, 10, 0x0F, 0, 0] ++
    [4, 0x6A, 0x6F, 0x6B, 0x65, 4, 0x4A, 0x4F, 0x4B, 0x45] ++ [2, 1, 8, 10, 2, 2, 1, 0x62]

theorem stamp_frame_sample : Module.decode Module.sampleBytes = .ok Module.sample ∧
    Plan.steady.KeepsLengths Module.sample ∧ stamp Module.sampleBytes Plan.steady = .ok steadyBytes ∧
    (steadyBytes.length = Module.sampleBytes.length ∧ ∀ place, steadyBytes[place]? = Module.sampleBytes[place]? ∨
      ∃ s, Plan.steady.Writes Module.sample s ∧ s.Has place) ∧
    Module.sample.Located Module.sampleBytes ∧
    ∀ out₀, stamp Module.sampleBytes .empty = .ok out₀ → out₀ = Module.sampleBytes :=
  have hdecode : Module.decode Module.sampleBytes = .ok Module.sample := by decide +kernel
  have hkeeps : Plan.steady.KeepsLengths Module.sample := by
    refine ⟨?_, by decide +kernel⟩
    simp only [Plan.steady, List.mem_cons, List.not_mem_nil, or_false]
    rintro e (rfl | rfl) s t hs ht
    · cases hs
      cases ht
      decide
    · cases hs
  have hstamp : stamp Module.sampleBytes Plan.steady = .ok steadyBytes := by decide +kernel
  ⟨hdecode, hkeeps, hstamp, stamp_frame hdecode hkeeps hstamp⟩

end Stencil
