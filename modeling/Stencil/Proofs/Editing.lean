import Stencil.Edit.Plan
import Stencil.Proofs.Replacing
import Stencil.Proofs.Substitution

/-! What a plan's edits are. A plan makes all its replacements and then its renaming, or nothing. No edit sees more of
    a module than its pools and its own handle, so a plan does the same to all modules that have the same ones. -/

namespace Stencil

namespace Module

/-- The module with another version word, directory and layout around the same pools. -/
def reframed (m : Module) (word : UInt32) (directory : List Table) (layout : List Slot) : Module :=
  { m with versionWord := word, directory, layout }

end Module

namespace Edit

/-! ### What edits see -/

/-- An edit sees no more of a module than its pools and its own handle: it does the same to modules that differ in
    all else, and leaves all else as it is. -/
def Blind {α : Type} (x : Edit α) : Prop := ∀ m word directory layout, x (m.reframed word directory layout) =
  match x m with
  | .ok a m' => .ok a (m'.reframed word directory layout)
  | .error error m' => .error error (m'.reframed word directory layout)

section Blind
variable {α β : Type}

theorem blind_pure (a : α) : Blind (pure a) := fun _ _ _ _ => rfl

theorem Blind.bind {x : Edit α} {f : α → Edit β} (hx : Blind x) (hf : ∀ a, Blind (f a)) : Blind (x >>= f) := by
  intro m word directory layout
  have hx := hx m word directory layout
  cases heq : x m with
  | error error m' =>
    rw [heq] at hx
    rw [bind_of_error heq, bind_of_error hx]
  | ok a m' =>
    rw [heq] at hx
    rw [bind_of_ok heq, bind_of_ok hx]
    exact hf a m' word directory layout

end Blind

theorem blind_replace (e : Replacement) : Blind (replace e) := by
  intro m word directory layout
  have hconstants : (m.reframed word directory layout).constants = m.constants := rfl
  rw [replace_eq, replace_eq, hconstants]
  cases m.constants[e.index]? with
  | none => rfl
  | some c =>
    dsimp only
    split
    · rfl
    · cases c.value? with
      | none => rfl
      | some v =>
        dsimp only
        split <;> rfl

theorem blind_rename (r : Renaming) : Blind (rename r) := by
  intro m word directory layout
  have hdangling : (m.reframed word directory layout).dangling? = m.dangling? :=
    Module.dangling?_congr rfl rfl rfl rfl
  have hnames : (m.reframed word directory layout).newNames r = m.newNames r := rfl
  have hidentifiers : (m.reframed word directory layout).identifiers = m.identifiers := rfl
  rw [rename_eq, rename_eq, hdangling, hnames, hidentifiers]
  cases m.dangling? with
  | some reference => rfl
  | none =>
    cases (m.newNames r).find? (!isNewName ·) with
    | some name => rfl
    | none => cases (m.newNames r).find? (fun name => 1 < (m.identifiers.map r.apply).count name) <;> rfl

theorem blind_plan (p : Plan) : Blind p.edit := by
  have hconstants : Blind (p.constants.forM replace) := by
    induction p.constants with
    | nil => exact blind_pure ()
    | cons e es ih => exact (blind_replace e).bind fun _ => ih
  exact hconstants.bind fun _ => blind_rename p.renames

end Edit

/-- A plan makes of a module what its edits leave behind where all of them succeed. -/
theorem Plan.apply_eq_ok_iff_edit {p : Plan} {m m' : Module} :
    p.apply m = .ok m' ↔ ∃ count, p.edit m = .ok count m' := by
  unfold apply Edit.result
  cases p.edit m <;> simp [Except.map]

theorem Plan.apply_eq_error_iff_edit {p : Plan} {m : Module} {error : Error} :
    p.apply m = .error error ↔ ∃ m', p.edit m = .error error m' := by
  unfold apply Edit.result
  cases p.edit m <;> simp [Except.map]

/-- A plan makes all its replacements and then its renaming, or nothing. -/
theorem Plan.apply_eq_ok_iff_steps {p : Plan} {m m' : Module} : p.apply m = .ok m' ↔
    ∃ m₁, p.constants.forM Edit.replace m = .ok () m₁ ∧ Edit.Renames p.renames m₁ ∧ m' = m₁.renamed p.renames := by
  rw [apply_eq_ok_iff_edit]
  cases hconstants : p.constants.forM Edit.replace m with
  | error error m₁ =>
    have herror : p.edit m = .error error m₁ := Edit.bind_of_error hconstants
    simp [herror]
  | ok _ m₁ =>
    have hrename : p.edit m = Edit.rename p.renames m₁ := Edit.bind_of_ok hconstants
    rcases Edit.rename_cases p.renames m₁ with ⟨hr, heq⟩ | ⟨hr, error, heq⟩
    · simp [hrename, heq, hr, eq_comm]
    · simp [hrename, heq, hr]

/-- A plan does the same to modules with the same pools, and fails for the same reason. -/
theorem Plan.apply_reframed (p : Plan) (m : Module) (word : UInt32) (directory : List Table) (layout : List Slot) :
    p.apply (m.reframed word directory layout) = (p.apply m).map (·.reframed word directory layout) := by
  unfold apply Edit.result
  rw [Edit.blind_plan p m word directory layout]
  cases p.edit m <;> rfl

end Stencil
