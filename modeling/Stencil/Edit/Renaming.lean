import Stencil.Edit.Basic
import Stencil.Text.Uppercase

/-! Renaming identifiers. A renaming gives new names to whole identifiers; all of them change at once, so
    a new name is never looked up again. -/

namespace Stencil

/-- Entries in the order of their sources, with the target of one source set. -/
def setTarget (source target : String) : List (String × String) → List (String × String)
  | [] => [(source, target)]
  | (s, t) :: rest =>
    if source < s then (source, target) :: (s, t) :: rest
    else if source = s then (source, target) :: rest
    else (s, t) :: setTarget source target rest

theorem mem_setTarget {source target : String} {entries : List (String × String)} {e : String × String}
    (h : e ∈ setTarget source target entries) : e = (source, target) ∨ e ∈ entries := by
  induction entries with
  | nil => exact Or.inl (List.mem_singleton.mp h)
  | cons first rest ih =>
    obtain ⟨s, t⟩ := first
    unfold setTarget at h
    split at h
    · simpa using h
    · split at h
      · exact (List.mem_cons.mp h).imp id (List.mem_cons_of_mem _)
      · rcases List.mem_cons.mp h with rfl | h
        · exact Or.inr List.mem_cons_self
        · exact (ih h).imp id (List.mem_cons_of_mem _)

theorem pairwise_setTarget {source target : String} {entries : List (String × String)}
    (h : entries.Pairwise (·.1 < ·.1)) : (setTarget source target entries).Pairwise (·.1 < ·.1) := by
  induction entries with
  | nil => exact List.pairwise_singleton _ _
  | cons first rest ih =>
    obtain ⟨s, t⟩ := first
    obtain ⟨hs, hr⟩ := List.pairwise_cons.mp h
    unfold setTarget
    split
    · rename_i hlt
      refine List.pairwise_cons.mpr ⟨fun e he => ?_, h⟩
      rcases List.mem_cons.mp he with rfl | he
      · exact hlt
      · exact String.lt_trans hlt (hs e he)
    · split
      · rename_i heq
        subst heq
        exact List.pairwise_cons.mpr ⟨hs, hr⟩
      · rename_i hlt hne
        refine List.pairwise_cons.mpr ⟨fun e he => ?_, ih hr⟩
        rcases mem_setTarget he with rfl | he
        · exact String.not_le.mp fun hle => hne (String.le_antisymm hle (String.not_lt.mp hlt))
        · exact hs e he

/-- New names for identifiers, at most one for each. -/
structure Renaming where
  entries : List (String × String)
  /-- Entries are in the order of their sources, which is that of the sources' bytes. -/
  sorted : entries.Pairwise (·.1 < ·.1)
  deriving DecidableEq

namespace Renaming

def empty : Renaming := ⟨[], List.Pairwise.nil⟩

/-- The new name of an identifier. -/
def get? (r : Renaming) (source : String) : Option String := r.entries.lookup source

/-- The renaming that also makes `target` of `source`, whatever it made of `source` before. -/
def insert (r : Renaming) (source target : String) : Renaming :=
  ⟨setTarget source target r.entries, pairwise_setTarget r.sorted⟩

def insertAll (r : Renaming) (entries : List (String × String)) : Renaming :=
  entries.foldl (fun r (source, target) => r.insert source target) r

/-- The renaming of a module, and with it the type that bears the module's name in upper case.
    A name that is in upper case already has no such companion. -/
def ofModule (source target : String) : Renaming :=
  let upper := Uppercase.ofString source
  if upper = source then empty.insert source target
  else (empty.insert source target).insert upper (Uppercase.ofString target)

/-- What becomes of an identifier. -/
def apply (r : Renaming) (name : String) : String := (r.get? name).getD name

section Apply
variable {r : Renaming} {name target : String}

theorem apply_of_some (h : r.get? name = some target) : r.apply name = target := by rw [apply, h, Option.getD_some]

theorem apply_of_none (h : r.get? name = none) : r.apply name = name := by rw [apply, h, Option.getD_none]

end Apply

end Renaming

def isIdentifierChar (c : Char) : Bool := c.isAlphanum || c == '_'

/-- Whether a text is an identifier: letters of ASCII, digits and underscores, a letter first, or an
    underscore with something after it. -/
def isIdentifier (s : String) : Bool :=
  match s.toList with
  | [] => false
  | c :: rest => (c.isAlpha || c == '_' && !rest.isEmpty) && rest.all isIdentifierChar

/-- Whether a text can be given to an identifier as its new name. -/
def isNewName (s : String) : Bool := isIdentifier s && Utf8.size s ≤ maxIdentifierLength

namespace Module

/-- The new names that a renaming gives, in the order of the pool. -/
def newNames (m : Module) (r : Renaming) : List String :=
  m.identifiers.filterMap fun name => if r.apply name = name then none else some (r.apply name)

end Module

/-- Renames the identifiers of a module and counts those that change. Every new name must be an
    identifier and stand in the renamed pool once. References are checked before the pool is written and
    again after it. -/
def Edit.rename (r : Renaming) : Edit Nat := do
  checkReferences
  let m ← get
  let names := m.newNames r
  let renamed := m.identifiers.map r.apply
  if let some name := names.find? (!isNewName ·) then throw (.invalidIdentifier name)
  if let some name := names.find? (1 < renamed.count ·) then throw (.duplicateIdentifier name)
  set { m with identifiers := renamed }
  checkReferences
  return names.length

/-- The module with its identifiers renamed, and the number of those that changed. -/
def Module.rename (m : Module) (r : Renaming) : Except Error (Module × Nat) := (Edit.rename r).result m

end Stencil
