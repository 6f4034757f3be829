import Stencil.Files.Store
import Stencil.Proofs.Lookup
import Stencil.Proofs.Result
import Stencil.Proofs.Utf8

/-! Files in a store. A path leads to one place, and leads there still when files are written; what is written at a
    path is read there, and no other file changes. Making directories changes no file. -/

namespace Stencil.Store

variable {s s' s'' : Store} {place other : List String} {item : Item} {path : String} {bytes : List UInt8}

/-! ### Places -/

theorem lookup_put (s : Store) (place other : List String) (item : Item) :
    (s.put place item).items.lookup other = if other = place then some item else s.items.lookup other := by
  unfold put
  rw [any_key_eq_isSome_lookup]
  cases hold : s.items.lookup place with
  | some old =>
    rw [Option.isSome_some, if_pos rfl, lookup_map_set, hold]
    rfl
  | none =>
    rw [Option.isSome_none, if_neg Bool.false_ne_true, List.lookup_append, lookup_cons_ite]
    by_cases ho : other = place
    · subst ho
      rw [hold, if_pos rfl, if_pos rfl]
      rfl
    · rw [if_neg ho, if_neg ho]
      exact Option.or_none

theorem get?_put (h : s.get? place ≠ some .directory) (item : Item) (other : List String) :
    (s.put place item).get? other = if other = place then some item else s.get? other := by
  by_cases ho : other = place
  · subst ho
    rw [if_pos rfl]
    unfold get? at h ⊢
    split
    · rename_i hroot
      exact absurd (if_pos hroot) h
    · rw [lookup_put, if_pos rfl]
  · rw [if_neg ho]
    unfold get?
    rw [lookup_put, if_neg ho]

theorem put_of_isSome (h : (s.items.lookup place).isSome = true) (item : Item) :
    s.put place item = ⟨s.items.map fun e => if e.1 = place then (place, item) else e⟩ := by
  rw [put, any_key_eq_isSome_lookup, if_pos h]

/-- All that is found at a place is what has been put there. -/
theorem eq_of_mem_put {e : List String × Item} (he : e ∈ (s.put place item).items) (hp : e.1 = place) :
    e = (place, item) := by
  by_cases h : (s.items.lookup place).isSome = true
  · rw [put_of_isSome h] at he
    obtain ⟨e', -, rfl⟩ := List.mem_map.mp he
    split at hp
    · rename_i heq
      rw [if_pos heq]
    · rename_i hne
      exact absurd hp hne
  · rw [put, any_key_eq_isSome_lookup, if_neg h] at he
    rcases List.mem_append.mp he with he | he
    · exact absurd (List.lookup_isSome_iff.mpr ⟨e, he, beq_iff_eq.mpr hp.symm⟩) h
    · exact List.mem_singleton.mp he

/-- What is put at a place again changes nothing. -/
theorem put_put (s : Store) (place : List String) (item : Item) :
    (s.put place item).put place item = s.put place item := by
  have hsome : ((s.put place item).items.lookup place).isSome = true := by
    rw [lookup_put, if_pos rfl]
    rfl
  have hsame : ∀ e ∈ (s.put place item).items, (if e.1 = place then (place, item) else e) = id e := by
    intro e he
    split
    · rename_i hp
      exact (eq_of_mem_put he hp).symm
    · rfl
  rw [put_of_isSome hsome, List.map_congr_left hsame, List.map_id]

/-! ### Paths -/

/-- The place of the file that is written at a path. -/
def target (s : Store) (path : String) : Except FileFault (List String) := do
  match ← s.resolve path with
  | (_, none) => throw .isDirectory
  | (dir, some name) =>
    if path.endsWith "/" || s.get? (dir ++ [name]) = some .directory then throw .isDirectory
    else return dir ++ [name]

theorem write_eq (s : Store) (path : String) (bytes : List UInt8) :
    s.write path bytes = (s.target path).map fun place => s.put place (.file bytes) := by
  unfold write target
  cases s.resolve path with
  | error fault => rfl
  | ok found =>
    obtain ⟨dir, _ | name⟩ := found
    · rfl
    · change (if _ then _ else _) = Except.map _ (if _ then _ else _)
      split <;> rfl

theorem target_eq_ok_iff : s.target path = .ok place ↔ ∃ dir name, s.resolve path = .ok (dir, some name) ∧
    path.endsWith "/" = false ∧ s.get? (dir ++ [name]) ≠ some .directory ∧ dir ++ [name] = place := by
  unfold target
  rw [Result.bind_eq_ok_iff]
  constructor
  · intro h
    obtain ⟨⟨dir, _ | name⟩, hresolve, h⟩ := h
    · cases h
    · dsimp only at h
      split at h
      · cases h
      · rename_i hfile
        rw [Bool.or_eq_true, decide_eq_true_eq, not_or, Bool.not_eq_true] at hfile
        exact ⟨dir, name, hresolve, hfile.1, hfile.2, Result.pure_eq_ok_iff.mp h⟩
  · rintro ⟨dir, name, hresolve, hslash, hfile, rfl⟩
    refine ⟨_, hresolve, if_neg ?_⟩
    rw [hslash, Bool.false_or, decide_eq_true_eq]
    exact hfile

theorem get?_target (h : s.target path = .ok place) : s.get? place ≠ some .directory := by
  obtain ⟨dir, name, -, -, hfile, rfl⟩ := target_eq_ok_iff.mp h
  exact hfile

theorem ne_directory_of_file (h : s.get? place = some (.file bytes)) : s.get? place ≠ some .directory := by
  rw [h]
  rintro ⟨⟩

/-- What is read at a path is the file at the place where it is written. -/
theorem read_eq_ok_iff :
    s.read path = .ok bytes ↔ ∃ place, s.target path = .ok place ∧ s.get? place = some (.file bytes) := by
  unfold read
  rw [Result.bind_eq_ok_iff]
  constructor
  · intro h
    obtain ⟨⟨dir, _ | name⟩, hresolve, h⟩ := h
    · cases h
    · dsimp only at h
      cases hitem : s.get? (dir ++ [name]) with
      | none =>
        rw [hitem] at h
        cases h
      | some item =>
        rw [hitem] at h
        cases item with
        | directory => cases h
        | file found =>
          dsimp only at h
          split at h
          · cases h
          · rename_i hslash
            cases h
            have hfile := ne_directory_of_file hitem
            exact ⟨_, target_eq_ok_iff.mpr ⟨dir, name, hresolve, Bool.eq_false_iff.mpr hslash, hfile, rfl⟩, hitem⟩
  · rintro ⟨_, htarget, hitem⟩
    obtain ⟨dir, name, hresolve, hslash, -, rfl⟩ := target_eq_ok_iff.mp htarget
    refine ⟨_, hresolve, ?_⟩
    dsimp only
    rw [hitem]
    dsimp only
    rw [if_neg (Bool.eq_false_iff.mp hslash)]
    rfl

/-- A path that leads through directories leads there as long as they stand. -/
theorem walk_mono (h : ∀ place, s.get? place = some .directory → s'.get? place = some .directory) {start : List String}
    {parts : List String} (hwalk : s.walk start parts = .ok place) : s'.walk start parts = .ok place := by
  fun_induction walk s start parts with
  | case1 => exact hwalk
  | case2 start parts ih =>
    unfold walk
    exact ih hwalk
  | case3 => cases hwalk
  | case4 => cases hwalk
  | case5 start part parts hup hdir ih =>
    rw [walk]
    · rw [h _ hdir]
      exact ih hwalk
    · exact hup

theorem resolve_mono (h : ∀ place, s.get? place = some .directory → s'.get? place = some .directory)
    {found : List String × Option String} (hresolve : s.resolve path = .ok found) : s'.resolve path = .ok found := by
  unfold resolve at hresolve ⊢
  dsimp only at hresolve ⊢
  split at hresolve
  · cases hresolve
  · rename_i hpath
    rw [if_neg hpath]
    split at hresolve
    all_goals
      obtain ⟨dir, hwalk, hfound⟩ := Result.bind_eq_ok_iff.mp hresolve
      exact Result.bind_eq_ok_iff.mpr ⟨dir, walk_mono h hwalk, hfound⟩

/-! ### Writing a file -/

theorem target_congr (h : ∀ place, s'.get? place = some .directory ↔ s.get? place = some .directory) :
    s'.target path = .ok place ↔ s.target path = .ok place := by
  rw [target_eq_ok_iff, target_eq_ok_iff]
  constructor
  · rintro ⟨dir, name, hresolve, hslash, hfile, heq⟩
    exact ⟨dir, name, resolve_mono (fun q => (h q).mp) hresolve, hslash, fun hdir => hfile ((h _).mpr hdir), heq⟩
  · rintro ⟨dir, name, hresolve, hslash, hfile, heq⟩
    exact ⟨dir, name, resolve_mono (fun q => (h q).mpr) hresolve, hslash, fun hdir => hfile ((h _).mp hdir), heq⟩

theorem directory_put_file_iff (h : s.get? place ≠ some .directory) (bytes : List UInt8) :
    (s.put place (.file bytes)).get? other = some .directory ↔ s.get? other = some .directory := by
  rw [get?_put h]
  split
  · rename_i heq
    subst heq
    simp [h]
  · rfl

theorem target_put_file (h : s.get? place ≠ some .directory) (bytes : List UInt8) :
    (s.put place (.file bytes)).target path = .ok other ↔ s.target path = .ok other :=
  target_congr fun _ => directory_put_file_iff h bytes

/-- After a file has been written, its bytes are read at the paths that lead to it, and all others are read as
    before. -/
theorem read_put_file_iff (h : s.get? place ≠ some .directory) {found : List UInt8} :
    (s.put place (.file bytes)).read path = .ok found ↔
      (s.target path = .ok place ∧ found = bytes) ∨ (s.target path ≠ .ok place ∧ s.read path = .ok found) := by
  rw [read_eq_ok_iff, read_eq_ok_iff]
  constructor
  · rintro ⟨other, htarget, hitem⟩
    rw [target_put_file h] at htarget
    rw [get?_put h] at hitem
    split at hitem
    · rename_i heq
      cases hitem
      exact Or.inl ⟨heq ▸ htarget, rfl⟩
    · rename_i hne
      refine Or.inr ⟨fun htarget' => hne ?_, other, htarget, hitem⟩
      rw [htarget] at htarget'
      exact Except.ok.inj htarget'
  · rintro (⟨htarget, rfl⟩ | ⟨hne, other, htarget, hitem⟩)
    · exact ⟨place, (target_put_file h _).mpr htarget, by rw [get?_put h, if_pos rfl]⟩
    · refine ⟨other, (target_put_file h _).mpr htarget, ?_⟩
      rw [get?_put h, if_neg]
      · exact hitem
      · rintro rfl
        exact hne htarget

theorem read_put_target (h : s.target path = .ok place) (bytes : List UInt8) :
    (s.put place (.file bytes)).read path = .ok bytes :=
  (read_put_file_iff (get?_target h)).mpr (Or.inl ⟨h, rfl⟩)

theorem files_read (s : Store) (path : String) : files.read path s = (s.read path, s) := rfl

theorem files_write_of_ok (h : s.target path = .ok place) (bytes : List UInt8) :
    files.write path bytes s = (.ok (), s.put place (.file bytes)) := by
  have hwrite : s.write path bytes = .ok (s.put place (.file bytes)) := by
    rw [write_eq, h]
    rfl
  change change (fun s => s.write path bytes) s = _
  simp only [change, hwrite]

theorem files_write_of_error {fault : FileFault} (h : s.target path = .error fault) (bytes : List UInt8) :
    files.write path bytes s = (.error fault, s) := by
  have hwrite : s.write path bytes = .error fault := by
    rw [write_eq, h]
    rfl
  change change (fun s => s.write path bytes) s = _
  simp only [change, hwrite]

theorem files_write_eq_ok_iff : files.write path bytes s = (.ok (), s') ↔
    ∃ place, s.target path = .ok place ∧ s.put place (.file bytes) = s' := by
  cases htarget : s.target path with
  | error fault =>
    rw [files_write_of_error htarget]
    refine ⟨fun h => ?_, fun ⟨_, h, _⟩ => ?_⟩
    · cases h
    · cases h
  | ok place =>
    rw [files_write_of_ok htarget]
    refine ⟨fun h => ⟨place, rfl, congrArg Prod.snd h⟩, fun ⟨_, hplace, h⟩ => ?_⟩
    cases hplace
    cases h
    rfl

theorem files_load_snd {α : Type} (parse : String → Except Json.Fault α) (path : String) (s : Store) :
    (files.load parse path s).2 = s := by
  simp only [FileSystem.load, Bind.bind, StateT.bind, files_read]
  cases s.read path with
  | error fault => rfl
  | ok bytes =>
    dsimp only
    cases Utf8.decode bytes <;> rfl

theorem files_load {α : Type} (parse : String → Except Json.Fault α) {text : String}
    (h : s.read path = .ok (Utf8.encode text)) :
    files.load parse path s = ((parse text).mapError (.unparsable path), s) := by
  have hdecode : Utf8.decode (Utf8.encode text) = .ok text := Utf8.decode_eq_ok_iff.mpr rfl
  simp only [FileSystem.load, Bind.bind, StateT.bind, files_read, h, hdecode]
  rfl

/-! ### Making directories -/

/-- The same files, and no directory is gone. -/
structure Extends (s s' : Store) : Prop where
  kept : ∀ place item, s.get? place = some item → s'.get? place = some item
  files : ∀ place bytes, s'.get? place = some (.file bytes) → s.get? place = some (.file bytes)

theorem Extends.refl (s : Store) : Extends s s := ⟨fun _ _ h => h, fun _ _ h => h⟩

theorem Extends.trans (h : Extends s s') (h' : Extends s' s'') : Extends s s'' :=
  ⟨fun place item hitem => h'.kept place item (h.kept place item hitem),
   fun place bytes hitem => h.files place bytes (h'.files place bytes hitem)⟩

/-- Every file of the one store is in the other, with the same bytes. -/
def SameFiles (s s' : Store) : Prop :=
  ∀ place bytes, s'.get? place = some (.file bytes) ↔ s.get? place = some (.file bytes)

theorem SameFiles.trans (h : SameFiles s s') (h' : SameFiles s' s'') : SameFiles s s'' :=
  fun place bytes => (h' place bytes).trans (h place bytes)

theorem SameFiles.symm (h : SameFiles s s') : SameFiles s' s := fun place bytes => (h place bytes).symm

theorem Extends.sameFiles (h : Extends s s') : SameFiles s s' :=
  fun place bytes => ⟨h.files place bytes, h.kept place (.file bytes)⟩

theorem Extends.read (h : Extends s s') (hread : s.read path = .ok bytes) : s'.read path = .ok bytes := by
  obtain ⟨place, htarget, hitem⟩ := read_eq_ok_iff.mp hread
  obtain ⟨dir, name, hresolve, hslash, -, rfl⟩ := target_eq_ok_iff.mp htarget
  have hitem' := h.kept _ _ hitem
  have hfile := ne_directory_of_file hitem'
  have hresolve' := resolve_mono (fun q => h.kept q .directory) hresolve
  exact read_eq_ok_iff.mpr ⟨_, target_eq_ok_iff.mpr ⟨dir, name, hresolve', hslash, hfile, rfl⟩, hitem'⟩

theorem extends_put_directory (h : s.get? place = none) : Extends s (s.put place .directory) := by
  have hne : s.get? place ≠ some .directory := by
    rw [h]
    rintro ⟨⟩
  refine ⟨fun other item hitem => ?_, fun other bytes hitem => ?_⟩
  · rw [get?_put hne, if_neg]
    · exact hitem
    · rintro rfl
      rw [h] at hitem
      cases hitem
  · rw [get?_put hne] at hitem
    split at hitem
    · cases hitem
    · exact hitem

theorem extends_makeDirectory (h : s.makeDirectory path = .ok s') : Extends s s' := by
  obtain ⟨⟨dir, _ | name⟩, -, h⟩ := Result.bind_eq_ok_iff.mp h
  · cases h
  · dsimp only at h
    split at h
    · cases h
    · rename_i hnone
      cases h
      exact extends_put_directory hnone

/-- Work that leaves the files as they are. -/
def Building {α : Type} (x : StateM Store α) : Prop := ∀ s, Extends s (x s).2

section Building
variable {α β : Type}

theorem building_pure (a : α) : Building (pure a : StateM Store α) := Extends.refl

theorem Building.bind {x : StateM Store α} {f : α → StateM Store β} (hx : Building x) (hf : ∀ a, Building (f a)) :
    Building (x >>= f) := fun s => (hx s).trans (hf (x s).1 (x s).2)

theorem building_makeDirectory (path : String) : Building (files.makeDirectory path) := by
  intro s
  change Extends s (change (fun s => s.makeDirectory path) s).2
  unfold change
  split
  · rename_i s' h
    exact extends_makeDirectory h
  · exact Extends.refl s

theorem building_isDirectory (path : String) : Building (files.isDirectory path) := Extends.refl

theorem building_makeAll (like : String) (parts : List String) : Building (files.makeAll like parts) := by
  have hthere (path : String) (fault : FileFault) : Building (do
      return if ← files.isDirectory path then Except.ok () else Except.error fault) :=
    (building_isDirectory path).bind fun _ => building_pure _
  induction parts with
  | nil => exact building_pure _
  | cons part outer ih =>
    unfold FileSystem.makeAll
    refine (building_makeDirectory _).bind fun made => ?_
    split
    · exact building_pure _
    · refine ih.bind fun above => ?_
      split
      · exact building_pure _
      · refine (building_makeDirectory _).bind fun made => ?_
        split
        · exact building_pure _
        · exact hthere _ _
    · exact hthere _ _

theorem extends_makeParents {result : Except FileFault Unit} (h : files.makeParents path s = (result, s')) :
    Extends s s' := by
  have hbuilding := building_makeAll path (Path.parentParts path).reverse s
  rw [show files.makeAll path (Path.parentParts path).reverse s = (result, s') from h] at hbuilding
  exact hbuilding

end Building

/-! ### Writing a file in its directories -/

/-- A store after a file has been written at a path, with the directories that it lies in. -/
def Written (s : Store) (path : String) (bytes : List UInt8) (s' : Store) : Prop :=
  ∃ s₁ place, files.makeParents path s = (.ok (), s₁) ∧ s₁.target path = .ok place ∧ s' = s₁.put place (.file bytes)

/-- Whether a file can be written at a path once the directories that it lies in have been made. -/
def Writable (s : Store) (path : String) : Prop :=
  ∃ s₁ place, files.makeParents path s = (.ok (), s₁) ∧ s₁.target path = .ok place

theorem Writable.written (h : s.Writable path) (bytes : List UInt8) : ∃ s', s.Written path bytes s' := by
  obtain ⟨s₁, place, hmakes, htarget⟩ := h
  exact ⟨_, s₁, place, hmakes, htarget, rfl⟩

theorem Written.read (h : s.Written path bytes s') : s'.read path = .ok bytes := by
  obtain ⟨s₁, place, -, htarget, rfl⟩ := h
  exact read_put_target htarget bytes

/-- No other file has changed when a file has been written. -/
theorem Written.get?_other (h : s.Written path bytes s') (hplace : s'.target path ≠ .ok place) {found : List UInt8} :
    s'.get? place = some (.file found) ↔ s.get? place = some (.file found) := by
  obtain ⟨s₁, written, hmakes, htarget, rfl⟩ := h
  have hfile := get?_target htarget
  have hne : place ≠ written := by
    rintro rfl
    exact hplace ((target_put_file hfile bytes).mpr htarget)
  rw [get?_put hfile, if_neg hne]
  exact (extends_makeParents hmakes).sameFiles place found

theorem Written.unique (h : s.Written path bytes s') (h' : s.Written path bytes s'') : s' = s'' := by
  obtain ⟨s₁, place, hmakes, htarget, rfl⟩ := h
  obtain ⟨s₂, place', hmakes', htarget', rfl⟩ := h'
  cases hmakes.symm.trans hmakes'
  cases htarget.symm.trans htarget'
  rfl

/-- A file that could be read before another path was written holds what it held, unless both paths lead to it. -/
theorem Written.read_other (h : s.Written path bytes s') {path' : String} {found : List UInt8}
    (hread : s.read path' = .ok found) :
    s'.read path' = .ok bytes ∧ s'.target path' = s'.target path ∨
      s'.read path' = .ok found ∧ s'.target path' ≠ s'.target path := by
  obtain ⟨s₁, place, hmakes, htarget, rfl⟩ := h
  have hread := (extends_makeParents hmakes).read hread
  have hfile := get?_target htarget
  have htarget' := (target_put_file hfile bytes).mpr htarget
  rw [htarget']
  by_cases hsame : s₁.target path' = .ok place
  · exact Or.inl ⟨(read_put_file_iff hfile).mpr (Or.inl ⟨hsame, rfl⟩), (target_put_file hfile bytes).mpr hsame⟩
  · exact Or.inr ⟨(read_put_file_iff hfile).mpr (Or.inr ⟨hsame, hread⟩),
      fun h => hsame ((target_put_file hfile bytes).mp h)⟩

end Stencil.Store
