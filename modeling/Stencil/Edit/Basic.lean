import Stencil.Module.Basic

/-! Editing a module in place. An edit may fail after it has written something, so what it leaves behind
    where it fails is part of its meaning. -/

namespace Stencil

/-- A step that edits a module in place. What it has written stays also where it fails. -/
abbrev Edit (α : Type) := EStateM Error Module α

namespace Edit

variable {α : Type}

/-- What an edit makes of a module that is given up where the edit fails. -/
def result (x : Edit α) (m : Module) : Except Error (Module × α) :=
  match x m with
  | .ok a m' => .ok (m', a)
  | .error e _ => .error e

/-- The module that an edit leaves behind, whether it succeeds or fails. -/
def after (x : Edit α) (m : Module) : Module :=
  match x m with
  | .ok _ m' => m'
  | .error _ m' => m'

/-- Fails if a reference of the module points outside its pool. -/
def checkReferences : Edit Unit := do
  if let some reference := (← get).dangling? then throw (.danglingReference reference)

variable {β : Type} {x : Edit α} {f : α → Edit β} {m m' : Module}

theorem get_bind (f : Module → Edit α) (m : Module) : (get >>= f) m = f m m := rfl

theorem bind_of_ok {a : α} (h : x m = .ok a m') : (x >>= f) m = f a m' := by
  change EStateM.bind x f m = _
  unfold EStateM.bind
  rw [h]

theorem bind_of_error {error : Error} (h : x m = .error error m') : (x >>= f) m = .error error m' := by
  change EStateM.bind x f m = _
  unfold EStateM.bind
  rw [h]

end Edit

end Stencil
