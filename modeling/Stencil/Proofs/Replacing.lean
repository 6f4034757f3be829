import Stencil.Edit.Replacement
import Stencil.Proofs.Result
import Stencil.Proofs.Value

/-! When a constant is replaced. A constant has one value, whether it is asked for through its module, by itself or by
    a replacement that expects it; a replacement that expects another one changes nothing and says why. -/

namespace Stencil

theorem ValueType.ofSignature?_eq_some_iff {s : Signature} {type : ValueType} :
    ofSignature? s = some type ↔ s = type.signature := by
  constructor
  · intro h
    unfold ofSignature? at h
    split at h <;> cases h <;> rfl
  · rintro rfl
    cases type <;> rfl

namespace Value

theorem short_of_parse {type : ValueType} {text : String} {v : Value} (h : parse type text = .ok v) : v.Short := by
  cases v with
  | string s =>
    obtain rfl : type = .string := (type_of_parse h).symm
    rw [parse] at h
    split at h
    · cases h
    · rename_i hsize
      cases h
      exact Nat.le_of_not_lt hsize
  | _ => trivial

/-- A value that a literal spells or that bytes are read as. -/
def Obtained (v : Value) : Prop := (∃ text, parse v.type text = .ok v) ∨ ∃ bytes, decode v.type bytes = .ok v

theorem Obtained.short {v : Value} (h : v.Obtained) : v.Short := by
  rcases h with ⟨text, h⟩ | ⟨bytes, h⟩
  · exact short_of_parse h
  · exact (decode_eq_ok_iff.mp h).1.2

end Value

namespace Constant

theorem value?_of_type {c : Constant} {type : ValueType} (h : c.type = type.signature) :
    c.value? = (Value.decode type c.data).toOption := by
  have htype : c.valueType? = some type := ValueType.ofSignature?_eq_some_iff.mpr h
  rw [value?, htype]
  rfl

/-- A constant has a value if it is declared with the value's type and holds the value's bytes. -/
theorem value?_eq_some_iff {c : Constant} {v : Value} :
    c.value? = some v ↔ c.type = v.type.signature ∧ v.Short ∧ c.data = v.encode := by
  simp only [value?, valueType?, Option.bind_eq_some_iff, ValueType.ofSignature?_eq_some_iff,
    Result.toOption_eq_some_iff, Value.decode_eq_ok_iff]
  constructor
  · rintro ⟨_, htype, ⟨rfl, hshort⟩, hdata⟩
    exact ⟨htype, hshort, hdata⟩
  · rintro ⟨htype, hshort, hdata⟩
    exact ⟨v.type, htype, ⟨rfl, hshort⟩, hdata⟩

end Constant

namespace Module

theorem valueAt_eq_ok_iff_value? {m : Module} {index : Nat} {v : Value} :
    m.valueAt index = .ok v ↔ ∃ c, m.constants[index]? = some c ∧ c.value? = some v := by
  unfold valueAt constantAt Constant.value?
  cases m.constants[index]? with
  | none => simp [bind, Except.bind]
  | some c =>
    cases htype : c.valueType? with
    | none => simp [bind, Except.bind, htype, throw, throwThe, MonadExceptOf.throw]
    | some type => simp [bind, Except.bind, htype, Read.mapError_eq_ok_iff, Result.toOption_eq_some_iff]

theorem valueAt_eq_ok_iff {m : Module} {index : Nat} {v : Value} : m.valueAt index = .ok v ↔
    ∃ c, m.constants[index]? = some c ∧ c.type = v.type.signature ∧ v.Short ∧ c.data = v.encode :=
  valueAt_eq_ok_iff_value?.trans (exists_congr fun _ => and_congr_right fun _ => Constant.value?_eq_some_iff)

theorem valueAt_congr {m m' : Module} {index : Nat} (h : m'.constants[index]? = m.constants[index]?) {v : Value} :
    m'.valueAt index = .ok v ↔ m.valueAt index = .ok v := by
  rw [valueAt_eq_ok_iff, valueAt_eq_ok_iff, h]

/-- The module with the data of one constant replaced. -/
def withData (m : Module) (index : Nat) (data : List UInt8) : Module :=
  { m with constants := m.constants.modify index fun c => { c with data } }

theorem withData_eq {m : Module} {index : Nat} {c : Constant} (h : m.constants[index]? = some c) (data : List UInt8) :
    m.withData index data = { m with constants := m.constants.set index { c with data } } := by
  have hset : (m.withData index data).constants = m.constants.set index { c with data } := by
    refine List.ext_getElem? fun i => ?_
    rw [withData, List.getElem?_modify, List.getElem?_set']
    by_cases hi : index = i
    · subst hi
      simp [h]
    · simp [hi]
  exact congrArg (fun constants => { m with constants }) hset

theorem map_type_withData (m : Module) (index : Nat) (data : List UInt8) :
    (m.withData index data).constants.map (·.type) = m.constants.map (·.type) := by
  refine List.ext_getElem? fun i => ?_
  rw [withData, List.getElem?_map, List.getElem?_modify, List.getElem?_map]
  cases m.constants[i]? with
  | none => rfl
  | some c =>
    by_cases hi : index = i
    · simp [hi]
    · simp [hi]

theorem getElem?_withData_ne {index other : Nat} (h : index ≠ other) (m : Module) (data : List UInt8) :
    (m.withData index data).constants[other]? = m.constants[other]? :=
  List.getElem?_modify_ne _ _ h

theorem valueAt_withData {m : Module} {index : Nat} {old v : Value} (h : m.valueAt index = .ok old)
    (htype : old.type = v.type) (hshort : v.Short) : (m.withData index v.encode).valueAt index = .ok v := by
  obtain ⟨c, hc, hold, -, -⟩ := valueAt_eq_ok_iff.mp h
  refine valueAt_eq_ok_iff.mpr ⟨{ c with data := v.encode }, ?_, htype ▸ hold, hshort, rfl⟩
  rw [withData, List.getElem?_modify_eq, hc]
  rfl

end Module

/-- Why a replacement is not made. -/
inductive Replacement.Refused (e : Replacement) (m : Module) : Error → Prop
  /-- The module has no such constant. -/
  | index (h : m.constants.length ≤ e.index) : Refused e m (.constantIndex e.index m.constants.length)
  /-- The constant is declared with another type. -/
  | type {c : Constant} (hc : m.constants[e.index]? = some c) (h : c.type ≠ e.type.signature) :
    Refused e m (.typeMismatch e.index (.declared e.type c.type))
  /-- The constant has another value. -/
  | value {c : Constant} {v : Value} (hc : m.constants[e.index]? = some c) (htype : c.type = e.type.signature)
    (hv : c.value? = some v) (h : v ≠ e.expected) : Refused e m (.valueMismatch e.index e.expected (.value v))
  /-- The constant holds bytes that are no value of its type. -/
  | undecodable {c : Constant} (hc : m.constants[e.index]? = some c) (htype : c.type = e.type.signature)
    (h : c.value? = none) : Refused e m (.valueMismatch e.index e.expected (.undecodable c.data))

namespace Edit

/-- The first check that fails decides what a replacement answers. -/
theorem replace_eq (e : Replacement) (m : Module) : replace e m =
    match m.constants[e.index]? with
    | none => .error (.constantIndex e.index m.constants.length) m
    | some c =>
      if c.type ≠ e.type.signature then .error (.typeMismatch e.index (.declared e.type c.type)) m
      else
        match c.value? with
        | none => .error (.valueMismatch e.index e.expected (.undecodable c.data)) m
        | some v =>
          if v = e.expected then .ok () (m.withData e.index e.value.encode)
          else .error (.valueMismatch e.index e.expected (.value v)) m := by
  unfold replace
  rw [get_bind]
  unfold Module.constantAt
  cases hc : m.constants[e.index]? with
  | none => rfl
  | some c =>
    dsimp only
    by_cases htype : c.type = e.type.signature
    · rw [if_neg (not_not_intro htype), if_neg (not_not_intro htype), Constant.value?_of_type htype]
      cases Value.decode e.type c.data with
      | error fault => rfl
      | ok v =>
        dsimp only [Except.toOption]
        split
        · rw [Module.withData_eq hc]
          rfl
        · rfl
    · rw [if_pos htype, if_pos htype]
      rfl

theorem replace_of_value {e : Replacement} {m : Module} (h : m.valueAt e.index = .ok e.expected) :
    replace e m = .ok () (m.withData e.index e.value.encode) := by
  obtain ⟨c, hc, hv⟩ := Module.valueAt_eq_ok_iff_value?.mp h
  have htype : c.type = e.type.signature := (Constant.value?_eq_some_iff.mp hv).1.trans (congrArg _ e.type_expected)
  simp [replace_eq, hc, htype, hv]

theorem replace_of_refused {e : Replacement} {m : Module} {error : Error} (h : e.Refused m error) :
    replace e m = .error error m := by
  rw [replace_eq]
  cases h with
  | index h => rw [List.getElem?_eq_none h]
  | type hc h => simp [hc, h]
  | value hc htype hv h => simp [hc, htype, hv, h]
  | undecodable hc htype h => simp [hc, htype, h]

/-- A module whose constant has not the expected value gives a reason. -/
theorem exists_refused {e : Replacement} {m : Module} (h : m.valueAt e.index ≠ .ok e.expected) :
    ∃ error, e.Refused m error := by
  cases hc : m.constants[e.index]? with
  | none => exact ⟨_, .index (List.getElem?_eq_none_iff.mp hc)⟩
  | some c =>
    by_cases htype : c.type = e.type.signature
    · cases hv : c.value? with
      | none => exact ⟨_, .undecodable hc htype hv⟩
      | some v =>
        refine ⟨_, .value hc htype hv ?_⟩
        rintro rfl
        exact h (Module.valueAt_eq_ok_iff_value?.mpr ⟨c, hc, hv⟩)
    · exact ⟨_, .type hc htype⟩

theorem replace_of_ne {e : Replacement} {m : Module} (h : m.valueAt e.index ≠ .ok e.expected) :
    ∃ error, replace e m = .error error m := by
  obtain ⟨error, hrefused⟩ := exists_refused h
  exact ⟨error, replace_of_refused hrefused⟩

/-- A replacement needs the value that it expects and writes the bytes of the other; or it changes nothing. -/
theorem replace_cases (e : Replacement) (m : Module) :
    (m.valueAt e.index = .ok e.expected ∧ replace e m = .ok () (m.withData e.index e.value.encode)) ∨
      (m.valueAt e.index ≠ .ok e.expected ∧ ∃ error, replace e m = .error error m) := by
  by_cases h : m.valueAt e.index = .ok e.expected
  · exact Or.inl ⟨h, replace_of_value h⟩
  · exact Or.inr ⟨h, replace_of_ne h⟩

/-- Replacements succeed exactly if the first one finds what it expects and the others succeed on what it leaves. -/
theorem forM_replace_cons_iff {e : Replacement} {es : List Replacement} {m m' : Module} :
    (e :: es).forM replace m = .ok () m' ↔
      m.valueAt e.index = .ok e.expected ∧ es.forM replace (m.withData e.index e.value.encode) = .ok () m' := by
  rw [List.forM]
  rcases replace_cases e m with ⟨hvalue, heq⟩ | ⟨hvalue, error, heq⟩
  · rw [bind_of_ok heq, and_iff_right hvalue]
  · rw [bind_of_error heq]
    simp [hvalue]

/-- A replacement fails for one of the reasons that there are, and leaves the module as it is. -/
theorem refused_of_replace {e : Replacement} {m m' : Module} {error : Error} (h : replace e m = .error error m') :
    m' = m ∧ e.Refused m error := by
  by_cases hv : m.valueAt e.index = .ok e.expected
  · cases (replace_of_value hv).symm.trans h
  · obtain ⟨error, hrefused⟩ := exists_refused hv
    cases (replace_of_refused hrefused).symm.trans h
    exact ⟨rfl, hrefused⟩

/-- A replacement is made exactly if the constant has the value that it expects, in the module or by itself. Then the
    constant has the other value, and nothing but its bytes has changed; otherwise nothing has, and the error tells
    why. -/
theorem replace_spec (e : Replacement) (m : Module) (hvalue : e.value.Obtained) :
    ((∃ m', replace e m = .ok () m') ↔ m.valueAt e.index = .ok e.expected) ∧
      (m.valueAt e.index = .ok e.expected ↔ ∃ c, m.constants[e.index]? = some c ∧ c.value? = some e.expected) ∧
      (∀ m', replace e m = .ok () m' → m'.valueAt e.index = .ok e.value ∧ ∃ c, m.constants[e.index]? = some c ∧
        m' = { m with constants := m.constants.set e.index { c with data := e.value.encode } }) ∧
      ∀ error m', replace e m = .error error m' ↔ m' = m ∧ e.Refused m error := by
  refine ⟨?_, Module.valueAt_eq_ok_iff_value?, fun m' h => ?_, fun error m' => ?_⟩
  · rcases replace_cases e m with ⟨hv, heq⟩ | ⟨hv, error, heq⟩ <;> simp [hv, heq]
  · rcases replace_cases e m with ⟨hv, heq⟩ | ⟨-, error, heq⟩
    · cases heq.symm.trans h
      obtain ⟨c, hc, -⟩ := Module.valueAt_eq_ok_iff_value?.mp hv
      exact ⟨Module.valueAt_withData hv e.type_expected hvalue.short, c, hc, Module.withData_eq hc _⟩
    · cases heq.symm.trans h
  · refine ⟨refused_of_replace, ?_⟩
    rintro ⟨rfl, h⟩
    exact replace_of_refused h

end Edit

/-- A module with a constant whose bytes say how long it is in two bytes, where one is enough. -/
def Module.lengthy : Module where
  versionWord := 6
  directory := [.pool .constants]
  layout := [.pool .constants]
  identifiers := []
  constants := [⟨.uint .w16, [7, 1]⟩, ⟨.vector (.uint .w8), [0x81, 0, 0x61]⟩]
  addresses := []
  handles := []
  selfHandle := none

open Stencil.Module in
theorem Edit.replace_lengthy : let number : Replacement := ⟨0, .uint .w16 263, .uint .w16 8, rfl⟩
    let text : Replacement := ⟨1, .string "a", .string "b", rfl⟩
    number.value.Obtained ∧ replace number lengthy = .ok () (lengthy.withData 0 [8, 0]) ∧
      (lengthy.withData 0 [8, 0]).valueAt 0 = .ok number.value ∧ text.value.Obtained ∧
      replace text lengthy = .error (.valueMismatch 1 text.expected (.undecodable [0x81, 0, 0x61])) lengthy := by
  intro number text
  have hnumber : number.value.Obtained := .inl ⟨"8", by decide +kernel⟩
  have htext : text.value.Obtained := .inl ⟨"b", by decide +kernel⟩
  have hmade : replace number lengthy = .ok () (lengthy.withData 0 [8, 0]) := by rfl
  have hnone : Constant.value? ⟨.vector (.uint .w8), [0x81, 0, 0x61]⟩ = none := by decide +kernel
  refine ⟨hnumber, hmade, ((replace_spec number lengthy hnumber).2.2.1 _ hmade).1, htext, ?_⟩
  exact ((replace_spec text lengthy htext).2.2.2 _ _).mpr ⟨rfl, .undecodable rfl rfl hnone⟩

end Stencil
