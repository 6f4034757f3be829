import Mathlib.Data.List.Nodup
import Mathlib.Data.List.Perm.Subperm
import Stencil.Edit.Renaming

/-! Renaming is one substitution. The identifiers of a module get their new names all at once, so names can be swapped
    and passed on. A renaming is refused for the first new name that is none or that another identifier has too, and
    once the names have been written nothing is left to fail. -/

namespace Stencil

/-- A name that can be given to an identifier: letters of ASCII, digits and underscores, a letter first, or an
    underscore with something after it, and no more than fit. -/
structure NewName (s : String) : Prop where
  spelled : ∃ first rest, s.toList = first :: rest ∧ (first.isAlpha ∨ first = '_' ∧ rest ≠ []) ∧
    ∀ c ∈ rest, c.isAlphanum ∨ c = '_'
  size : Utf8.size s ≤ maxIdentifierLength

theorem isNewName_iff {s : String} : isNewName s ↔ NewName s := by
  have hspelled : isIdentifier s ↔ ∃ first rest, s.toList = first :: rest ∧
      (first.isAlpha ∨ first = '_' ∧ rest ≠ []) ∧ ∀ c ∈ rest, c.isAlphanum ∨ c = '_' := by
    unfold isIdentifier
    cases s.toList with
    | nil => simp
    | cons first rest => simp [isIdentifierChar]
  rw [isNewName, Bool.and_eq_true, hspelled, decide_eq_true_eq]
  exact ⟨fun ⟨h, h'⟩ => ⟨h, h'⟩, fun ⟨h, h'⟩ => ⟨h, h'⟩⟩

namespace Module

/-- Whether references point outside their pools depends on the pools' sizes only. -/
theorem dangling?_congr {m m' : Module} (hidentifiers : m'.identifiers.length = m.identifiers.length)
    (haddresses : m'.addresses.length = m.addresses.length) (hhandles : m'.handles = m.handles)
    (hself : m'.selfHandle = m.selfHandle) : m'.dangling? = m.dangling? := by
  have hhandle : m'.danglingHandle? = m.danglingHandle? := by
    funext index h
    unfold danglingHandle?
    rw [hidentifiers, haddresses]
  unfold dangling? danglingSelf?
  rw [hhandle, hhandles, hself]

/-- A reference that points outside the pool which it indexes, as it is reported. -/
inductive Dangles (m : Module) : Dangling → Prop
  | identifier {index : Nat} {h : ModuleHandle} (hhandle : m.handles[index]? = some h)
    (hname : m.identifiers.length ≤ h.name.toNat) :
    Dangles m (.identifier index h.name.toNat m.identifiers.length)
  | address {index : Nat} {h : ModuleHandle} (hhandle : m.handles[index]? = some h)
    (haddress : m.addresses.length ≤ h.address.toNat) :
    Dangles m (.address index h.address.toNat m.addresses.length)
  | self {handle : UInt16} (hself : m.selfHandle = some handle) (hhandle : m.handles.length ≤ handle.toNat) :
    Dangles m (.self handle.toNat m.handles.length)

section Dangling
variable {m : Module}

theorem danglingHandle?_eq_none_iff {index : Nat} {h : ModuleHandle} : m.danglingHandle? index h = none ↔
    h.name.toNat < m.identifiers.length ∧ h.address.toNat < m.addresses.length := by
  unfold danglingHandle?
  rw [← Nat.not_le, ← Nat.not_le]
  split
  · simp [*]
  · split <;> simp [*]

theorem danglingSelf?_eq_none_iff :
    m.danglingSelf? = none ↔ ∀ handle, m.selfHandle = some handle → handle.toNat < m.handles.length := by
  unfold danglingSelf?
  cases m.selfHandle with
  | none => simp
  | some handle => simp [Option.bind]

/-- No reference is reported exactly if every handle's name and address and the module's own handle are in their
    pools. -/
theorem dangling?_eq_none_iff : m.dangling? = none ↔
    (∀ h ∈ m.handles, h.name.toNat < m.identifiers.length ∧ h.address.toNat < m.addresses.length) ∧
      ∀ handle, m.selfHandle = some handle → handle.toNat < m.handles.length := by
  rw [dangling?, Option.or_eq_none_iff, List.findSome?_eq_none_iff, danglingSelf?_eq_none_iff]
  refine and_congr_left fun _ => ?_
  constructor
  · intro hall h hmem
    obtain ⟨index, hindex⟩ := List.mem_iff_getElem?.mp hmem
    exact danglingHandle?_eq_none_iff.mp (hall (h, index) (List.mem_zipIdx_iff_getElem?.mpr hindex))
  · intro hall e he
    exact danglingHandle?_eq_none_iff.mpr (hall e.1 (List.mem_of_getElem? (List.mem_zipIdx_iff_getElem?.mp he)))

/-- What is reported is a reference of the module that points outside its pool. -/
theorem dangles_of_dangling? {reference : Dangling} (h : m.dangling? = some reference) : m.Dangles reference := by
  rcases Option.or_eq_some_iff.mp h with hhandle | ⟨-, hself⟩
  · obtain ⟨⟨h, index⟩, he, hreported⟩ := List.exists_of_findSome?_eq_some hhandle
    have hindex := List.mem_zipIdx_iff_getElem?.mp he
    dsimp only at hreported
    unfold danglingHandle? at hreported
    split at hreported
    · cases hreported
      exact .identifier hindex ‹_›
    · split at hreported
      · cases hreported
        exact .address hindex ‹_›
      · cases hreported
  · obtain ⟨handle, hown, hreported⟩ := Option.bind_eq_some_iff.mp hself
    split at hreported
    · cases hreported
      exact .self hown ‹_›
    · cases hreported

end Dangling

-- The second handle names an identifier past the end of the pool.
example : let m : Module := ⟨6, [], [], ["a"], [], [⟨List.replicate 32 0, by decide⟩], [⟨0, 0⟩, ⟨0, 3⟩], some 1⟩
    m.dangling? = some (.identifier 1 3 1) := by decide +kernel

/-- The module with the names of all identifiers replaced. -/
def renamed (m : Module) (r : Renaming) : Module := { m with identifiers := m.identifiers.map r.apply }

theorem dangling?_renamed (m : Module) (r : Renaming) : (m.renamed r).dangling? = m.dangling? :=
  dangling?_congr (List.length_map _) rfl rfl rfl

section NewNames
variable {m : Module} {r : Renaming}

theorem forall_newNames_iff {P : String → Prop} : (∀ name ∈ m.newNames r, P name) ↔
    ∀ source ∈ m.identifiers, r.apply source ≠ source → P (r.apply source) := by
  rw [newNames, List.forall_mem_filterMap]
  refine forall₂_congr fun source _ => ?_
  by_cases h : r.apply source = source <;> simp [h]

theorem length_newNames : (m.newNames r).length = m.identifiers.countP fun source => r.apply source ≠ source := by
  rw [newNames, List.length_filterMap_eq_countP]
  refine List.countP_congr fun source _ => ?_
  by_cases h : r.apply source = source <;> simp [h]

/-- `name` is the first new name with a property, in the order of the pool. -/
def FirstNew (m : Module) (r : Renaming) (P : String → Prop) (name : String) : Prop :=
  ∃ before source after, m.identifiers = before ++ source :: after ∧
    (r.apply source ≠ source ∧ r.apply source = name ∧ P name) ∧
    ∀ earlier ∈ before, r.apply earlier ≠ earlier → ¬ P (r.apply earlier)

theorem find?_newNames_eq_some_iff {p : String → Bool} {P : String → Prop} (hp : ∀ name, p name ↔ P name)
    {name : String} : (m.newNames r).find? p = some name ↔ m.FirstNew r P name := by
  have hany (source : String) :
      (if r.apply source = source then none else some (r.apply source)).any p ↔
        r.apply source ≠ source ∧ P (r.apply source) := by
    by_cases h : r.apply source = source <;> simp [h, hp]
  simp only [newNames, List.find?_filterMap, Option.bind_eq_some_iff, List.find?_eq_some_iff_append, hany,
    Bool.not_eq_true', ← Bool.not_eq_true, not_and]
  constructor
  · rintro ⟨source, ⟨⟨hchanged, hP⟩, before, after, heq, hbefore⟩, hname⟩
    rw [if_neg hchanged] at hname
    obtain rfl := Option.some.inj hname
    exact ⟨before, source, after, heq, ⟨hchanged, rfl, hP⟩, hbefore⟩
  · rintro ⟨before, source, after, heq, ⟨hchanged, rfl, hP⟩, hbefore⟩
    exact ⟨source, ⟨⟨hchanged, hP⟩, before, after, heq, hbefore⟩, if_neg hchanged⟩

end NewNames

end Module

/-- Why a renaming is not done. -/
inductive Renaming.Refused (r : Renaming) (m : Module) : Error → Prop
  /-- A reference of the module points outside its pool. -/
  | dangling {reference : Dangling} (h : m.dangling? = some reference) : Refused r m (.danglingReference reference)
  /-- A new name is none that can be given; the first such name is told. -/
  | invalid {name : String} (hreferences : m.dangling? = none) (h : m.FirstNew r (¬ NewName ·) name) :
    Refused r m (.invalidIdentifier name)
  /-- A new name would stand in the pool twice; the first such name is told. -/
  | duplicate {name : String} (hreferences : m.dangling? = none)
    (hnames : ∀ source ∈ m.identifiers, r.apply source ≠ source → NewName (r.apply source))
    (h : m.FirstNew r (1 < (m.identifiers.map r.apply).count ·) name) : Refused r m (.duplicateIdentifier name)

namespace Edit

/-- A renaming may be done on a module. -/
structure Renames (r : Renaming) (m : Module) : Prop where
  references : m.dangling? = none
  names : ∀ name ∈ m.newNames r, isNewName name
  single : ∀ name ∈ m.newNames r, (m.identifiers.map r.apply).count name ≤ 1

theorem checkReferences_eq (m : Module) : checkReferences m =
    match m.dangling? with
    | some reference => .error (.danglingReference reference) m
    | none => .ok () m := by
  unfold checkReferences
  rw [get_bind]
  cases m.dangling? <;> rfl

/-- The first check that fails decides what a renaming answers; the one after the writing never fails. -/
theorem rename_eq (r : Renaming) (m : Module) : rename r m =
    match m.dangling? with
    | some reference => .error (.danglingReference reference) m
    | none =>
      match (m.newNames r).find? (!isNewName ·) with
      | some name => .error (.invalidIdentifier name) m
      | none =>
        match (m.newNames r).find? (fun name => 1 < (m.identifiers.map r.apply).count name) with
        | some name => .error (.duplicateIdentifier name) m
        | none => .ok (m.newNames r).length (m.renamed r) := by
  have hbefore := checkReferences_eq m
  have hafter := checkReferences_eq (m.renamed r)
  rw [m.dangling?_renamed] at hafter
  unfold rename
  cases hreferences : m.dangling? with
  | some reference =>
    rw [hreferences] at hbefore
    exact bind_of_error hbefore
  | none =>
    rw [hreferences] at hbefore hafter
    rw [bind_of_ok hbefore, get_bind]
    dsimp only
    cases (m.newNames r).find? (!isNewName ·) with
    | some name => rfl
    | none =>
      cases (m.newNames r).find? (fun name => 1 < (m.identifiers.map r.apply).count name) with
      | some name => rfl
      | none => exact bind_of_ok hafter

section Outcomes
variable {r : Renaming} {m m' : Module} {error : Error}

theorem find?_invalid_iff {name : String} :
    (m.newNames r).find? (!isNewName ·) = some name ↔ m.FirstNew r (¬ NewName ·) name :=
  Module.find?_newNames_eq_some_iff fun name => by simp [← isNewName_iff]

theorem find?_invalid_eq_none_iff : (m.newNames r).find? (!isNewName ·) = none ↔
    ∀ source ∈ m.identifiers, r.apply source ≠ source → NewName (r.apply source) := by
  simp [List.find?_eq_none, Module.forall_newNames_iff, isNewName_iff]

theorem find?_duplicate_iff {name : String} :
    (m.newNames r).find? (fun name => 1 < (m.identifiers.map r.apply).count name) = some name ↔
      m.FirstNew r (1 < (m.identifiers.map r.apply).count ·) name :=
  Module.find?_newNames_eq_some_iff fun _ => decide_eq_true_iff

/-- What changes must be new names, and no other identifier may have them then. -/
theorem renames_iff : Renames r m ↔ m.dangling? = none ∧ ∀ source ∈ m.identifiers, r.apply source ≠ source →
    NewName (r.apply source) ∧ (m.identifiers.map r.apply).count (r.apply source) = 1 := by
  have hcount {source : String} (h : source ∈ m.identifiers) : 0 < (m.identifiers.map r.apply).count (r.apply source) :=
    List.count_pos_iff.mpr (List.mem_map_of_mem h)
  constructor
  · rintro ⟨hreferences, hnames, hsingle⟩
    rw [Module.forall_newNames_iff] at hnames hsingle
    refine ⟨hreferences, fun source h hchanged => ⟨isNewName_iff.mp (hnames source h hchanged), ?_⟩⟩
    exact Nat.le_antisymm (hsingle source h hchanged) (hcount h)
  · rintro ⟨hreferences, h⟩
    refine ⟨hreferences, Module.forall_newNames_iff.mpr fun source hsource hchanged => ?_,
      Module.forall_newNames_iff.mpr fun source hsource hchanged => ?_⟩
    · exact isNewName_iff.mpr (h source hsource hchanged).1
    · exact Nat.le_of_eq (h source hsource hchanged).2

theorem rename_of_renames (h : Renames r m) : rename r m = .ok (m.newNames r).length (m.renamed r) := by
  obtain ⟨hreferences, hnames, hsingle⟩ := h
  have hinvalid : (m.newNames r).find? (!isNewName ·) = none := by simpa using hnames
  have hduplicate : (m.newNames r).find? (fun name => 1 < (m.identifiers.map r.apply).count name) = none := by
    simpa using hsingle
  rw [rename_eq, hreferences, hinvalid, hduplicate]

theorem rename_of_refused (h : r.Refused m error) : rename r m = .error error m := by
  rw [rename_eq]
  cases h with
  | dangling h => rw [h]
  | invalid hreferences h => rw [hreferences, find?_invalid_iff.mpr h]
  | duplicate hreferences hnames h =>
    rw [hreferences, find?_invalid_eq_none_iff.mpr hnames, find?_duplicate_iff.mpr h]

/-- A renaming that may not be done gives a reason. -/
theorem exists_refused_of_not_renames (h : ¬ Renames r m) : ∃ error, r.Refused m error := by
  cases hreferences : m.dangling? with
  | some reference => exact ⟨_, .dangling hreferences⟩
  | none =>
    cases hinvalid : (m.newNames r).find? (!isNewName ·) with
    | some name => exact ⟨_, .invalid hreferences (find?_invalid_iff.mp hinvalid)⟩
    | none =>
      cases hduplicate : (m.newNames r).find? (fun name => 1 < (m.identifiers.map r.apply).count name) with
      | some name =>
        exact ⟨_, .duplicate hreferences (find?_invalid_eq_none_iff.mp hinvalid) (find?_duplicate_iff.mp hduplicate)⟩
      | none => exact absurd ⟨hreferences, by simpa using hinvalid, by simpa using hduplicate⟩ h

theorem rename_of_not (h : ¬ Renames r m) : ∃ error, rename r m = .error error m := by
  obtain ⟨error, hrefused⟩ := exists_refused_of_not_renames h
  exact ⟨error, rename_of_refused hrefused⟩

/-- A renaming fails for one of the reasons that there are, and leaves the module as it is. -/
theorem refused_of_rename (h : rename r m = .error error m') : m' = m ∧ r.Refused m error := by
  by_cases hr : Renames r m
  · cases (rename_of_renames hr).symm.trans h
  · obtain ⟨error, hrefused⟩ := exists_refused_of_not_renames hr
    cases (rename_of_refused hrefused).symm.trans h
    exact ⟨rfl, hrefused⟩

end Outcomes

/-- A renaming that may be done changes the identifiers only; one that may not changes nothing. -/
theorem rename_cases (r : Renaming) (m : Module) :
    (Renames r m ∧ rename r m = .ok (m.newNames r).length (m.renamed r)) ∨
      (¬ Renames r m ∧ ∃ error, rename r m = .error error m) := by
  by_cases h : Renames r m
  · exact Or.inl ⟨h, rename_of_renames h⟩
  · exact Or.inr ⟨h, rename_of_not h⟩

namespace Renames
variable {r : Renaming} {m : Module} (h : Renames r m)
include h

theorem count_le_one {name : String} (hname : name ∈ m.identifiers) (hchanged : r.apply name ≠ name) :
    (m.identifiers.map r.apply).count (r.apply name) ≤ 1 :=
  h.single _ (List.mem_filterMap.mpr ⟨name, hname, if_neg hchanged⟩)

/-- A renaming gives no two identifiers of the pool one name. -/
theorem apply_inj {x y : String} (hx : x ∈ m.identifiers) (hy : y ∈ m.identifiers) (heq : r.apply x = r.apply y) :
    x = y := by
  by_contra hne
  obtain ⟨both, hperm, hsub⟩ : List.Subperm [x, y] m.identifiers :=
    List.subperm_of_subset (by simpa using hne) (by simp [hx, hy])
  have htwice : 2 ≤ (m.identifiers.map r.apply).count (r.apply x) := by
    have hcount := (hsub.map r.apply).count_le (r.apply x)
    rw [(hperm.map r.apply).count_eq] at hcount
    simpa [heq] using hcount
  -- One of the two has changed, so the name that they share is a new one.
  by_cases hchanged : r.apply x = x
  · have hchanged' : r.apply y ≠ y := fun hy' => hne (hchanged.symm.trans (heq.trans hy'))
    have := h.count_le_one hy hchanged'
    rw [← heq] at this
    omega
  · have := h.count_le_one hx hchanged
    omega

theorem nodup_renamed (hnodup : m.identifiers.Nodup) : (m.renamed r).identifiers.Nodup :=
  hnodup.map_on fun _ hx _ hy heq => h.apply_inj hx hy heq

end Renames

/-- Where names only change their places in the pool, none of them stands there twice. -/
theorem renames_of_perm {r : Renaming} {m : Module} (hreferences : m.dangling? = none) (hnodup : m.identifiers.Nodup)
    (hperm : (m.identifiers.map r.apply).Perm m.identifiers)
    (hnames : ∀ source ∈ m.identifiers, r.apply source ≠ source → NewName (r.apply source)) : Renames r m := by
  refine renames_iff.mpr ⟨hreferences, fun source hsource hchanged => ⟨hnames source hsource hchanged, ?_⟩⟩
  exact List.count_eq_one_of_mem (hperm.nodup_iff.mpr hnodup) (List.mem_map_of_mem hsource)

/-- The exact meaning of a renaming: when it is done, what it does, and why it is refused. It changes all names at
    once, so a pool without duplicates stays one and names can be exchanged; it writes only what passes every check,
    the last one included. -/
theorem rename_spec (r : Renaming) (m : Module) :
    ((∃ count m', rename r m = .ok count m') ↔ m.dangling? = none ∧
      ∀ source ∈ m.identifiers, r.apply source ≠ source →
        NewName (r.apply source) ∧ (m.identifiers.map r.apply).count (r.apply source) = 1) ∧
    (∀ count m', rename r m = .ok count m' → m' = { m with identifiers := m.identifiers.map r.apply } ∧
      (count = m.identifiers.countP fun source => r.apply source ≠ source) ∧
      (m.identifiers.Nodup → m'.identifiers.Nodup)) ∧
    (m.dangling? = none → m.identifiers.Nodup → (m.identifiers.map r.apply).Perm m.identifiers →
      (∀ source ∈ m.identifiers, r.apply source ≠ source → NewName (r.apply source)) →
      ∃ count m', rename r m = .ok count m') ∧
    (∀ error m', rename r m = .error error m' ↔ m' = m ∧ r.Refused m error) ∧
    (m.dangling? = none → checkReferences (m.renamed r) = .ok () (m.renamed r)) := by
  refine ⟨?_, fun count m' h => ?_, fun hreferences hnodup hperm hnames => ?_, fun error m' => ?_, fun h => ?_⟩
  · rw [← renames_iff]
    rcases rename_cases r m with ⟨hr, heq⟩ | ⟨hr, error, heq⟩ <;> simp [hr, heq]
  · rcases rename_cases r m with ⟨hr, heq⟩ | ⟨-, error, heq⟩
    · cases heq.symm.trans h
      exact ⟨rfl, Module.length_newNames, hr.nodup_renamed⟩
    · cases heq.symm.trans h
  · exact ⟨_, _, rename_of_renames (renames_of_perm hreferences hnodup hperm hnames)⟩
  · refine ⟨refused_of_rename, ?_⟩
    rintro ⟨rfl, h⟩
    exact rename_of_refused h
  · rw [checkReferences_eq, m.dangling?_renamed, h]

-- Three names are passed round.
example : let m : Module := ⟨6, [], [], ["a", "b", "c"], [], [], [], none⟩
    m.rename (Renaming.empty.insertAll [("a", "b"), ("b", "c"), ("c", "a")]) =
      .ok ({ m with identifiers := ["b", "c", "a"] }, 3) := by decide +kernel

end Edit

end Stencil
