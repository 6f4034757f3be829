import Stencil.Edit.Replacement
import Stencil.Edit.Renaming
import Stencil.Module.Decode

/-! Edit plans: all that turns a template into one module of its kind. -/

namespace Stencil

/-- Replacements of constants, in the order in which they apply, and a renaming, which applies after
    them. -/
structure Plan where
  constants : List Replacement
  renames : Renaming
  deriving DecidableEq

namespace Plan

def empty : Plan := ⟨[], .empty⟩

def isEmpty (p : Plan) : Bool := p.constants.isEmpty && p.renames.entries.isEmpty

/-- Edits a module as a plan says and counts the identifiers that change. -/
def edit (p : Plan) : Edit Nat := do
  p.constants.forM Edit.replace
  Edit.rename p.renames

/-- The module that a plan makes of a module. -/
def apply (p : Plan) (m : Module) : Except Error Module := (p.edit.result m).map (·.1)

end Plan

/-- The bytes that a plan makes of a template's bytes. -/
def stamp (template : List UInt8) (p : Plan) : Except Error (List UInt8) := do
  (← p.apply (← Module.decode template)).encode

end Stencil
