import Stencil.Token
import Stencil.Proofs.Literal
import Stencil.Proofs.Planning
import Stencil.Proofs.Renaming
import Stencil.Proofs.Result

/-! A plan that is made for a template fits the template. The value that each of its replacements expects went from
    the constant through its text and back; so it is the constant's value if the constant has the type that the token
    sets, and otherwise the replacement is refused because of its type. -/

namespace Stencil

theorem ValueType.signature_injective : Function.Injective signature := by
  intro a b h
  cases a <;> cases b <;> cases h <;> rfl

/-! ### Replacements that suit a module -/

namespace Module

/-- The constant that a replacement is for is declared with the replacement's type. -/
def Declares (m : Module) (e : Replacement) : Prop :=
  ∃ c, m.constants[e.index]? = some c ∧ c.type = e.type.signature

/-- A replacement finds the value that it expects, if that value is of the replacement's type at all. -/
def Suits (m : Module) (e : Replacement) : Prop := ∃ v, m.valueAt e.index = .ok v ∧ (v.type = e.type → v = e.expected)

section Elsewhere
variable {m m' : Module} {e : Replacement} (h : m'.constants[e.index]? = m.constants[e.index]?)
include h

theorem declares_congr : m'.Declares e ↔ m.Declares e := by
  unfold Declares
  rw [h]

theorem Suits.congr (hsuits : m.Suits e) : m'.Suits e := by
  obtain ⟨v, hv, hsame⟩ := hsuits
  exact ⟨v, (valueAt_congr h).mpr hv, hsame⟩

end Elsewhere

end Module

namespace Edit

/-- A replacement that suits a module is refused because of its type only. -/
theorem replace_of_suits {m : Module} {e : Replacement} (h : m.Suits e) :
    (m.Declares e ∧ m.valueAt e.index = .ok e.expected) ∨
      (¬ m.Declares e ∧ ∃ found, replace e m = .error (.typeMismatch e.index (.declared e.type found)) m) := by
  obtain ⟨v, hv, hsame⟩ := h
  obtain ⟨c, hc, htype, -, -⟩ := Module.valueAt_eq_ok_iff.mp hv
  by_cases heq : v.type = e.type
  · obtain rfl := hsame heq
    exact Or.inl ⟨⟨c, hc, heq ▸ htype⟩, hv⟩
  · have hne : c.type ≠ e.type.signature := fun h => heq (ValueType.signature_injective (htype.symm.trans h))
    refine Or.inr ⟨?_, c.type, ?_⟩
    · rintro ⟨c', hc', htype'⟩
      cases hc.symm.trans hc'
      exact hne htype'
    · simp [replace_eq, hc, hne]

/-- Replacements of different constants that all suit a module can be made, or one of them has the wrong type. -/
theorem forM_replace_of_suits {es : List Replacement} (hnodup : (es.map (·.index)).Nodup) {m : Module}
    (h : ∀ e ∈ es, m.Suits e) :
    ((∀ e ∈ es, m.Declares e) ∧ ∃ m', es.forM replace m = .ok () m') ∨
      ((∃ e ∈ es, ¬ m.Declares e) ∧ ∃ index clash m', es.forM replace m = .error (.typeMismatch index clash) m') := by
  -- The module is general: what the first replacement writes, no other replacement reads.
  induction es generalizing m with
  | nil => exact Or.inl ⟨fun _ he => absurd he List.not_mem_nil, m, rfl⟩
  | cons e es ih =>
    obtain ⟨he, hes⟩ := List.forall_mem_cons.mp h
    rw [List.map_cons, List.nodup_cons] at hnodup
    rcases replace_of_suits he with ⟨hdeclares, hvalue⟩ | ⟨hdeclares, found, heq⟩
    · have hother : ∀ e' ∈ es,
          (m.withData e.index e.value.encode).constants[e'.index]? = m.constants[e'.index]? := by
        intro e' he'
        exact Module.getElem?_withData_ne (fun hsame => hnodup.1 (List.mem_map.mpr ⟨e', he', hsame.symm⟩)) m _
      rw [List.forM, bind_of_ok (replace_of_value hvalue)]
      rcases ih hnodup.2 fun e' he' => (hes e' he').congr (hother e' he') with ⟨hall, hok⟩ | ⟨⟨e', he', hnot⟩, herror⟩
      · refine Or.inl ⟨List.forall_mem_cons.mpr ⟨hdeclares, fun e' he' => ?_⟩, hok⟩
        exact (Module.declares_congr (hother e' he')).mp (hall e' he')
      · refine Or.inr ⟨⟨e', List.mem_cons_of_mem e he', fun hdecl => hnot ?_⟩, herror⟩
        exact (Module.declares_congr (hother e' he')).mpr hdecl
    · refine Or.inr ⟨⟨e, List.mem_cons_self, hdeclares⟩, e.index, .declared e.type found, m, ?_⟩
      rw [List.forM, bind_of_error heq]

/-- No renaming fails because of a constant. -/
theorem rename_error {r : Renaming} {m m' : Module} {error : Error} (h : rename r m = .error error m') :
    (∃ reference, error = .danglingReference reference) ∨
      ∃ name, error = .invalidIdentifier name ∨ error = .duplicateIdentifier name := by
  obtain ⟨-, hrefused⟩ := refused_of_rename h
  cases hrefused with
  | dangling => exact Or.inl ⟨_, rfl⟩
  | invalid => exact Or.inr ⟨_, Or.inl rfl⟩
  | duplicate => exact Or.inr ⟨_, Or.inr rfl⟩

end Edit

/-! ### Plans for a template -/

theorem Replacement.editsAt_of_mem {es : List Replacement} (hnodup : (es.map (·.index)).Nodup) {e : Replacement}
    (he : e ∈ es) : editsAt es e.index = [e] := by
  induction es with
  | nil => cases he
  | cons first es ih =>
    rw [List.map_cons, List.nodup_cons] at hnodup
    rcases List.mem_cons.mp he with rfl | he
    · rw [editsAt_cons_self]
      refine congrArg _ (List.filter_eq_nil_iff.mpr fun e' he' hsame => hnodup.1 ?_)
      exact List.mem_map.mpr ⟨e', he', of_decide_eq_true hsame⟩
    · have hne : first.index ≠ e.index := fun heq => hnodup.1 (List.mem_map.mpr ⟨e, he, heq.symm⟩)
      rw [editsAt_cons_ne hne, ih hnodup.2 he]

namespace TokenSettings

/-- The name that a plan for a template renames. -/
def nameOf (m : Module) : String := m.name?.getD templateName

/-- What a token sets, each with the constant that it is for. -/
def settings (t : TokenSettings) : List (Placeholder × String) := placeholders.zip t.values

theorem map_fst_settings (t : TokenSettings) : t.settings.map (·.1) = placeholders := rfl

/-- The replacement that a plan for a template has for a setting. -/
structure Makes (m : Module) (setting : Placeholder × String) (e : Replacement) : Prop where
  index : e.index = setting.1.index
  expected : ∃ v, m.valueAt setting.1.index = .ok v ∧ Value.parse setting.1.type v.display = .ok e.expected
  value : Value.parse setting.1.type setting.2 = .ok e.value

/-- Replacements whose expected texts come from a template, one for each setting. -/
theorem makes_of_zip {m : Module} {phs : List Placeholder} {defaults values : List String} {es : List Replacement}
    (hdefaults : List.Forall₂ (fun ph text => ∃ v, m.valueAt ph.index = .ok v ∧ v.display = text) phs defaults)
    (hes : List.Forall₂ (fun (x : Placeholder × String × String) e =>
      Replacement.parse x.1.index x.1.type x.2.1 x.2.2 = .ok e) (phs.zip (defaults.zip values)) es) :
    List.Forall₂ (Makes m) (phs.zip values) es := by
  induction hdefaults generalizing values es with
  | nil =>
    cases hes
    exact .nil
  | cons hdefault _ ih =>
    cases values with
    | nil =>
      cases hes
      exact .nil
    | cons value values =>
      cases hes with
      | cons he hes =>
        obtain ⟨v, hv, rfl⟩ := hdefault
        obtain ⟨hindex, hexpected, hvalue⟩ := Replacement.parse_eq_ok_iff.mp he
        exact .cons ⟨hindex, ⟨v, hv, hexpected⟩, hvalue⟩ (ih hes)

theorem planFor_eq_ok {t : TokenSettings} {m : Module} {p : Plan} (h : t.planFor m = .ok p) :
    List.Forall₂ (Makes m) t.settings p.constants ∧ p.renames = .ofModule (nameOf m) t.moduleName := by
  obtain ⟨defaults, hdefaults, h⟩ := Result.bind_eq_ok_iff.mp h
  obtain ⟨constants, hconstants, h⟩ := Result.bind_eq_ok_iff.mp h
  obtain rfl := Result.pure_eq_ok_iff.mp h
  refine ⟨makes_of_zip ((Result.mapM_eq_ok_iff.mp hdefaults).imp fun ph text htext => ?_)
    ((Result.mapM_eq_ok_iff.mp hconstants).imp fun x e he => Read.mapError_eq_ok_iff.mp he), rfl⟩
  obtain ⟨v, hv, htext⟩ := Result.bind_eq_ok_iff.mp htext
  exact ⟨v, hv, Result.pure_eq_ok_iff.mp htext⟩

theorem Makes.type {m : Module} {setting : Placeholder × String} {e : Replacement} (h : Makes m setting e) :
    e.type = setting.1.type := Value.type_of_parse h.value

/-- The expected value went from the constant through its text and back. -/
theorem Makes.suits {m : Module} {setting : Placeholder × String} {e : Replacement} (h : Makes m setting e) :
    m.Suits e := by
  obtain ⟨v, hv, hexpected⟩ := h.expected
  refine ⟨v, h.index ▸ hv, fun htype => ?_⟩
  obtain ⟨_, -, -, hshort, -⟩ := Module.valueAt_eq_ok_iff.mp hv
  rw [← h.type, ← htype, Value.parse_display hshort] at hexpected
  exact Except.ok.inj hexpected

theorem nodup_index {t : TokenSettings} {m : Module} {es : List Replacement}
    (h : List.Forall₂ (Makes m) t.settings es) : (es.map (·.index)).Nodup := by
  have hindex : List.Forall₂ (· = ·) (t.settings.map (·.1.index)) (es.map (·.index)) :=
    List.forall₂_map_left_iff.mpr (List.forall₂_map_right_iff.mpr (h.imp fun _ _ he => he.index.symm))
  rw [List.forall₂_eq_eq_eq] at hindex
  rw [← hindex]
  change (placeholders.map (·.index)).Nodup
  decide

/-- All replacements have the type of their constant exactly if the template declares what the token sets. -/
theorem exists_not_declares_iff {t : TokenSettings} {m : Module} {es : List Replacement}
    (h : List.Forall₂ (Makes m) t.settings es) : (∃ e ∈ es, ¬ m.Declares e) ↔
      ∃ ph ∈ placeholders, ∃ c, m.constants[ph.index]? = some c ∧ c.type ≠ ph.type.signature := by
  obtain ⟨hleft, hright⟩ := Result.exists_of_forall₂ h
  constructor
  · rintro ⟨e, he, hnot⟩
    obtain ⟨setting, hsetting, hmakes⟩ := hright e he
    obtain ⟨v, hv, -⟩ := hmakes.expected
    obtain ⟨c, hc, -⟩ := Module.valueAt_eq_ok_iff.mp hv
    refine ⟨setting.1, (List.of_mem_zip hsetting).1, c, hc, fun htype => hnot ⟨c, hmakes.index ▸ hc, ?_⟩⟩
    rw [htype, hmakes.type]
  · rintro ⟨ph, hph, c, hc, hne⟩
    rw [← t.map_fst_settings] at hph
    obtain ⟨setting, hsetting, rfl⟩ := List.mem_map.mp hph
    obtain ⟨e, he, hmakes⟩ := hleft setting hsetting
    refine ⟨e, he, ?_⟩
    rintro ⟨c', hc', htype⟩
    rw [hmakes.index, hc] at hc'
    cases hc'
    exact hne (hmakes.type ▸ htype)

/-- `m'` is the token that settings make of the template `m`. -/
structure Token (t : TokenSettings) (m m' : Module) : Prop where
  constants : ∀ ph literal, (ph, literal) ∈ t.settings →
    ∃ v, Value.parse ph.type literal = .ok v ∧ m'.valueAt ph.index = .ok v
  length : m'.identifiers.length = m.identifiers.length
  name : m.name?.isSome → m'.name? = some t.moduleName
  witness : Uppercase.ofString (nameOf m) ≠ nameOf m → ∀ index : Nat,
    m.identifiers[index]? = some (Uppercase.ofString (nameOf m)) →
      m'.identifiers[index]? = some (Uppercase.ofString t.moduleName)
  others : ∀ (index : Nat) name, m.identifiers[index]? = some name → name ≠ nameOf m →
    name ≠ Uppercase.ofString (nameOf m) → m'.identifiers[index]? = some name

theorem token_of_apply {t : TokenSettings} {m m' : Module} {p : Plan} (h : t.planFor m = .ok p)
    (happly : p.apply m = .ok m') : t.Token m m' := by
  obtain ⟨hmakes, hrenames⟩ := planFor_eq_ok h
  obtain ⟨hleft, hright⟩ := Result.exists_of_forall₂ hmakes
  have hshort : ∀ e ∈ p.constants, e.value.Short := by
    intro e he
    obtain ⟨setting, -, hsetting⟩ := hright e he
    exact Value.short_of_parse hsetting.value
  obtain ⟨⟨happlicable, -⟩, rfl⟩ := (Plan.apply_eq_ok_iff hshort).mp happly
  have hidentifiers (index : Nat) : ((m.revised p.constants).renamed p.renames).identifiers[index]? =
      (m.identifiers[index]?).map (Renaming.ofModule (nameOf m) t.moduleName).apply := by
    rw [← hrenames]
    exact List.getElem?_map
  exact {
    constants := by
      intro ph literal hmem
      obtain ⟨e, he, hsetting⟩ := hleft _ hmem
      have hlast : (Replacement.editsAt p.constants e.index).getLast? = some e := by
        rw [Replacement.editsAt_of_mem (nodup_index hmakes) he]
        rfl
      exact ⟨e.value, hsetting.value, hsetting.index ▸ Plan.valueAt_revised hshort happlicable hlast⟩
    length := List.length_map _
    name := by
      intro hsome
      obtain ⟨name, hname⟩ := Option.isSome_iff_exists.mp hsome
      obtain ⟨handle, hhandle, hindex⟩ := Option.bind_eq_some_iff.mp hname
      refine Option.bind_eq_some_iff.mpr ⟨handle, hhandle, ?_⟩
      have hself : nameOf m = name := by rw [nameOf, hname, Option.getD_some]
      rw [hidentifiers, hindex, Option.map_some, Renaming.ofModule_apply, hself, if_pos rfl]
    witness := by
      intro hne index hindex
      rw [hidentifiers, hindex, Option.map_some, Renaming.ofModule_apply, if_neg hne, if_pos rfl]
    others := by
      intro index name hindex hname hupper
      rw [hidentifiers, hindex, Option.map_some, Renaming.ofModule_apply, if_neg hname, if_neg hupper] }

/-- A plan that is made for a template fits it. No constant is missing or holds another value than expected; a plan
    is refused for a type exactly if the template declares one of the token's constants with another type, and what
    it makes is the token. -/
theorem apply_planFor {t : TokenSettings} {m : Module} {p : Plan} (h : t.planFor m = .ok p) :
    (∀ error, p.apply m = .error error → (∀ index expected found, error ≠ .valueMismatch index expected found) ∧
      ∀ index size, error ≠ .constantIndex index size) ∧
    ((∃ index clash, p.apply m = .error (.typeMismatch index clash)) ↔
      ∃ ph ∈ placeholders, ∃ c, m.constants[ph.index]? = some c ∧ c.type ≠ ph.type.signature) ∧
    ∀ m', p.apply m = .ok m' → t.Token m m' := by
  obtain ⟨hmakes, -⟩ := planFor_eq_ok h
  have hsuits : ∀ e ∈ p.constants, m.Suits e := by
    intro e he
    obtain ⟨setting, -, hsetting⟩ := (Result.exists_of_forall₂ hmakes).2 e he
    exact hsetting.suits
  rw [← exists_not_declares_iff hmakes]
  rcases Edit.forM_replace_of_suits (nodup_index hmakes) hsuits with
    ⟨hdeclares, m₁, hconstants⟩ | ⟨hnot, index, clash, m₁, hconstants⟩
  · have hedit : p.edit m = Edit.rename p.renames m₁ := Edit.bind_of_ok hconstants
    have herror {error : Error} (heq : p.apply m = .error error) :
        (∃ reference, error = .danglingReference reference) ∨
          ∃ name, error = .invalidIdentifier name ∨ error = .duplicateIdentifier name := by
      rw [Plan.apply_eq_error_iff_edit, hedit] at heq
      obtain ⟨m', heq⟩ := heq
      exact Edit.rename_error heq
    refine ⟨fun error heq => ?_, ⟨fun ⟨index, clash, heq⟩ => ?_, fun ⟨e, he, hnot⟩ => absurd (hdeclares e he) hnot⟩,
      fun m' => token_of_apply h⟩
    · rcases herror heq with ⟨_, rfl⟩ | ⟨_, rfl | rfl⟩ <;> simp
    · rcases herror heq with ⟨_, h⟩ | ⟨_, h | h⟩ <;> cases h
  · have hedit : p.edit m = .error (.typeMismatch index clash) m₁ := Edit.bind_of_error hconstants
    have happly : p.apply m = .error (.typeMismatch index clash) :=
      Plan.apply_eq_error_iff_edit.mpr ⟨m₁, hedit⟩
    rw [happly]
    refine ⟨fun error heq => ?_, ⟨fun _ => hnot, fun _ => ⟨index, clash, rfl⟩⟩, fun m' heq => ?_⟩
    · cases heq
      simp
    · cases heq

/-- A template that was compiled with other values than the known one, and bears another name. -/
def coin : Module where
  versionWord := 6
  directory := [.pool .moduleHandles, .pool .identifiers, .pool .addresses, .pool .constants]
  layout := [.pool .moduleHandles, .pool .identifiers, .pool .addresses, .pool .constants]
  identifiers := ["coin", "COIN", "init"]
  constants := [⟨.uint .w64, [7, 0, 0, 0, 0, 0, 0, 0]⟩, ⟨.uint .w8, [9]⟩, ⟨.vector (.uint .w8), [1, 0x53]⟩,
    ⟨.vector (.uint .w8), [1, 0x37]⟩, ⟨.vector (.uint .w8), [0]⟩, ⟨.vector (.uint .w8), [2, 0xC3, 0xA9]⟩,
    ⟨.uint .w64, [0, 1, 0, 0, 0, 0, 0, 0]⟩, ⟨.uint .w64, [1, 0, 0, 0, 0, 0, 0, 0]⟩]
  addresses := [⟨List.replicate 32 0, by decide⟩]
  handles := [⟨0, 0⟩]
  selfHandle := some 0

def papa : TokenSettings where
  moduleName := "papa"
  totalSupply := "100"
  decimals := "3"
  symbol := "JOKE"
  name := "Joke"
  description := ""
  iconUrl := "é"
  mintPrice := "5"
  ownerAllocation := "18446744073709551615"

/-- The plan that makes the one of the other. -/
def papaPlan : Plan where
  constants := [⟨0, .uint .w64 7, .uint .w64 100, rfl⟩, ⟨1, .uint .w8 9, .uint .w8 3, rfl⟩,
    ⟨2, .string "S", .string "JOKE", rfl⟩, ⟨3, .string "7", .string "Joke", rfl⟩, ⟨4, .string "", .string "", rfl⟩,
    ⟨5, .string "é", .string "é", rfl⟩, ⟨6, .uint .w64 256, .uint .w64 5, rfl⟩,
    ⟨7, .uint .w64 1, .uint .w64 18446744073709551615, rfl⟩]
  renames := .ofModule "coin" "papa"

/-- The template as the plan leaves it. -/
def papaModule : Module := { coin with
  identifiers := ["papa", "PAPA", "init"]
  constants := [⟨.uint .w64, [100, 0, 0, 0, 0, 0, 0, 0]⟩, ⟨.uint .w8, [3]⟩,
    ⟨.vector (.uint .w8), [4, 0x4A, 0x4F, 0x4B, 0x45]⟩, ⟨.vector (.uint .w8), [4, 0x4A, 0x6F, 0x6B, 0x65]⟩,
    ⟨.vector (.uint .w8), [0]⟩, ⟨.vector (.uint .w8), [2, 0xC3, 0xA9]⟩, ⟨.uint .w64, [5, 0, 0, 0, 0, 0, 0, 0]⟩,
    ⟨.uint .w64, [255, 255, 255, 255, 255, 255, 255, 255]⟩] }

theorem apply_planFor_coin : papa.planFor coin = .ok papaPlan ∧ papaPlan.apply coin = .ok papaModule ∧
    papa.Token coin papaModule :=
  have hplan : papa.planFor coin = .ok papaPlan := by decide +kernel
  have happly : papaPlan.apply coin = .ok papaModule := by decide +kernel
  ⟨hplan, happly, (apply_planFor hplan).2.2 papaModule happly⟩

end TokenSettings

end Stencil
