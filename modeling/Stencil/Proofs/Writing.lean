import Stencil.Proofs.Invariant

/-! What is written for a module. Its directory has one entry for each kind of table that the module lists, in
    the order of the list, and each entry says where the table of its kind stands. Whether a module is too large
    to be written depends on the lengths of its tables only. What is written for a stamped module is read as it. -/

namespace Stencil

namespace Module

/-- Where the table of a kind stands among the contents of a module. -/
def place? (m : Module) (kind : Table) : Option Placement := (placements 0 m.tables).find? (·.kind == kind)

/-- The entries of the directory that is written for a module. -/
def entries (m : Module) : List Placement := m.directory.filterMap m.place?

/-- Why a module is too large to be written, if it is. -/
def excess? (m : Module) : Option Reason :=
  match m.tables.find? (maxLength < ·.2.length) with
  | some (kind, _) => some (.tableTooLarge kind)
  | none => if maxLength < m.contents.length then some .contentsTooLarge else none

/-- The directory of a module lists each of its tables once. -/
structure Listed (m : Module) : Prop where
  nodup : m.directory.Nodup
  perm : m.directory.Perm (m.layout.map Slot.kind)

theorem WellFormed.listed {m : Module} (h : m.WellFormed) : m.Listed := ⟨h.nodup, h.perm⟩

theorem Lists.listed {m : Module} {ps : List Placement} (h : m.Lists ps) : m.Listed :=
  ⟨h.nodup, m.map_fst_tables ▸ h.perm⟩

theorem mem_layout_of_carried? {m : Module} {kind : Table} {contents : List UInt8}
    (h : m.carried? kind = some contents) : ∃ table, kind = .carried table ∧ .carried table contents ∈ m.layout := by
  obtain ⟨slot, hslot, heq⟩ := List.exists_of_findSome?_eq_some h
  cases slot with
  | pool p => cases heq
  | carried table contents' =>
    dsimp only at heq
    split at heq
    · rename_i hkind
      cases heq
      exact ⟨table, hkind.symm, hslot⟩
    · cases heq

namespace Listed
variable {m : Module} (h : m.Listed)
include h

theorem nodup_kinds : (m.layout.map Slot.kind).Nodup := h.perm.nodup_iff.mp h.nodup

theorem place?_eq_some_iff {kind : Table} {p : Placement} :
    m.place? kind = some p ↔ p ∈ placements 0 m.tables ∧ p.kind = kind := by
  have hnodup : ((placements 0 m.tables).map (·.kind)).Nodup := by
    rw [map_kind_placements, map_fst_tables]
    exact h.nodup_kinds
  have hfind : m.place? kind = some p ↔ findPlacement (placements 0 m.tables) kind = .ok p := by
    unfold place? findPlacement
    cases (placements 0 m.tables).find? (·.kind == kind) <;> simp
  rw [hfind, findPlacement_eq_ok_iff hnodup]

/-- There is one way only to list the tables of a module in a given order. -/
theorem entries_eq {ps : List Placement} (hkinds : ps.map (·.kind) = m.directory)
    (hps : ∀ p ∈ ps, p ∈ placements 0 m.tables) : m.entries = ps := by
  have hentry : ∀ p ∈ ps, m.place? p.kind = some p := fun p hp => h.place?_eq_some_iff.mpr ⟨hps p hp, rfl⟩
  rw [entries, ← hkinds, List.filterMap_map]
  exact (List.filterMap_congr hentry).trans List.filterMap_some

theorem map_kind_entries : m.entries.map (·.kind) = m.directory ∧ ∀ p ∈ m.entries, p ∈ placements 0 m.tables := by
  have hlisted : m.directory ⊆ (placements 0 m.tables).map (·.kind) := by
    rw [map_kind_placements, map_fst_tables]
    exact h.perm.subset
  obtain ⟨ps, hkinds, hps⟩ := exists_entries hlisted
  rw [h.entries_eq hkinds hps]
  exact ⟨hkinds, hps⟩

/-- A carried table has the contents that the layout gives it. -/
theorem carried?_eq_some_iff {kind : Table} {contents : List UInt8} :
    m.carried? kind = some contents ↔ ∃ table, kind = .carried table ∧ .carried table contents ∈ m.layout := by
  refine ⟨mem_layout_of_carried?, ?_⟩
  rintro ⟨table, rfl, hmem⟩
  cases hfind : m.carried? (.carried table) with
  | none =>
    have hnone := List.findSome?_eq_none_iff.mp hfind _ hmem
    simp at hnone
  | some contents' =>
    obtain ⟨table', hkind, hmem'⟩ := mem_layout_of_carried? hfind
    cases hkind
    cases List.inj_on_of_nodup_map h.nodup_kinds hmem hmem' rfl
    rfl

end Listed

theorem Lists.entries_eq {m : Module} {ps : List Placement} (h : m.Lists ps) : m.entries = ps :=
  h.listed.entries_eq h.kinds fun _ hp => h.arranged.1.mem_iff.mpr hp

/-- Bytes that are read as a module have the directory that is written for it. -/
theorem eq_spell_of_decode {bytes : List UInt8} {m : Module} (h : decode bytes = .ok m) :
    bytes = m.spell m.entries := by
  obtain ⟨-, -, ps, hps, rfl⟩ := decode_eq_ok_iff.mp h
  rw [hps.entries_eq]

/-! ### Modules too large -/

theorem excess?_eq_none_iff {m : Module} : m.excess? = none ↔ m.contents.length ≤ maxLength := by
  unfold excess?
  cases hfind : m.tables.find? (fun t => decide (maxLength < t.2.length)) with
  | some t =>
    have hlong : maxLength < t.2.length := by simpa using List.find?_some hfind
    have := length_le_contents (List.mem_of_find?_eq_some hfind)
    simp
    omega
  | none => simp

/-- A module that is not too large is written with the directory that says where its tables stand. -/
theorem Listed.encode_eq {m : Module} (h : m.Listed) : m.encode =
    match m.excess? with
    | some reason => .error (.malformed ⟨0, reason⟩)
    | none => .ok (m.spell m.entries) := by
  cases hexcess : m.excess? with
  | none =>
    exact (encode_eq_ok_iff h.nodup (m.map_fst_tables ▸ h.perm)).mpr
      ⟨excess?_eq_none_iff.mp hexcess, m.entries, h.map_kind_entries, rfl⟩
  | some reason =>
    unfold excess? contents at hexcess
    unfold encode
    dsimp only at hexcess ⊢
    cases hfind : m.tables.find? (fun t => decide (maxLength < t.2.length)) with
    | some t =>
      rw [hfind] at hexcess
      cases hexcess
      rfl
    | none =>
      rw [hfind] at hexcess
      dsimp only at hexcess ⊢
      split at hexcess
      · cases hexcess
        rw [if_pos ‹_›]
        rfl
      · cases hexcess

/-- What is written for a well-formed module is read as that module. -/
theorem WellFormed.decode_of_encode {m : Module} {out : List UInt8} (h : m.WellFormed) (hout : m.encode = .ok out) :
    out = m.spell m.entries ∧ decode out = .ok m := by
  have hlen : m.contents.length ≤ maxLength := Nat.le_of_not_lt fun hlt => encode_ne_ok hlt out hout
  obtain ⟨bytes, hbytes, hdecode⟩ := h.decode_encode hlen
  obtain rfl : bytes = out := Except.ok.inj (hbytes.symm.trans hout)
  exact ⟨eq_spell_of_decode hdecode, hdecode⟩

/-! ### Modules with tables of the same lengths -/

/-- What a slot holds depends on the pools of the module only. -/
theorem encodeSlot_reframed (m : Module) (word : UInt32) (directory : List Table) (layout : List Slot) :
    (m.reframed word directory layout).encodeSlot = m.encodeSlot := by
  funext slot
  cases slot with
  | pool p => cases p <;> rfl
  | carried table contents => rfl

theorem records_reframed (m : Module) (word : UInt32) (directory : List Table) (layout : List Slot) (p : Pool) :
    (m.reframed word directory layout).records p = m.records p := by
  cases p <;> rfl

/-- A module stays complete in another layout with the same pools. -/
theorem Complete.reframed {m : Module} (h : m.Complete) {word : UInt32} (hword : versionOf word = m.version)
    (directory : List Table) {layout : List Slot} (hpools : ∀ p, .pool p ∈ layout ↔ .pool p ∈ m.layout) :
    (m.reframed word directory layout).Complete where
  absent p hp := by
    rw [records_reframed]
    exact h.absent p fun hmem => hp ((hpools p).mpr hmem)
  records p hp := by
    rw [records_reframed]
    exact h.records p ((hpools p).mp hp)
  selfHandle := by
    rw [show (m.reframed word directory layout).version = m.version from hword]
    exact h.selfHandle

theorem tiles_placements (m : Module) : Tiles 0 (placements 0 m.tables) m.contents.length :=
  (tiles_iff_placements (map_placements 0 m.tables)).mpr ⟨rfl, (Nat.zero_add _).symm⟩

/-- The kinds and lengths of the tables in the order of their offsets. -/
def sizes (m : Module) : List (Table × Nat) := m.tables.map fun t => (t.1, t.2.length)

section Sizes
variable {m m' : Module} (h : m'.sizes = m.sizes)
include h

theorem placements_congr : placements 0 m'.tables = placements 0 m.tables := by
  exact ((tiles_iff_placements ((map_placements 0 m.tables).trans h.symm)).mp m.tiles_placements).1.symm

theorem place?_congr : m'.place? = m.place? := by
  funext kind
  rw [place?, place?, placements_congr h]

theorem entries_congr (hdirectory : m'.directory = m.directory) : m'.entries = m.entries := by
  rw [entries, entries, place?_congr h, hdirectory]

theorem excess?_congr : m'.excess? = m.excess? := by
  have hfind (m : Module) : m.sizes.find? (fun t => decide (maxLength < t.2)) =
      (m.tables.find? fun t => decide (maxLength < t.2.length)).map fun t => (t.1, t.2.length) := by
    rw [sizes, List.find?_map]
    rfl
  have hlength (m : Module) : m.contents.length = (m.sizes.map (·.2)).sum := by
    rw [contents, List.length_flatMap, sizes, List.map_map]
    rfl
  have hsame := (hfind m').symm.trans (h ▸ hfind m)
  unfold excess?
  rw [hlength, hlength, h]
  cases hm' : m'.tables.find? (fun t => decide (maxLength < t.2.length)) <;>
    cases hm : m.tables.find? (fun t => decide (maxLength < t.2.length)) <;>
      simp_all

end Sizes

end Module

/-! ### Stamping -/

theorem stamp_eq {template : List UInt8} {m : Module} (h : Module.decode template = .ok m) (p : Plan) :
    stamp template p = p.apply m >>= Module.encode := by
  rw [stamp, h]
  rfl

/-- What a plan makes of a template's bytes are the bytes of what it makes of the template, and are read as that. -/
theorem exists_of_stamp {template out : List UInt8} {p : Plan} (h : stamp template p = .ok out) :
    ∃ m m', Module.decode template = .ok m ∧ p.apply m = .ok m' ∧ out = m'.spell m'.entries ∧
      Module.decode out = .ok m' := by
  cases hm : Module.decode template with
  | error error => simp [stamp, hm, bind, Except.bind] at h
  | ok m =>
    rw [stamp_eq hm] at h
    cases happly : p.apply m with
    | error error => simp [happly, bind, Except.bind] at h
    | ok m' =>
      have hencode : m'.encode = .ok out := by rw [← h, happly]; rfl
      obtain ⟨hwell, -⟩ := Plan.keeps_apply (Module.wellFormed_of_decode hm) happly
      obtain ⟨hspell, hdecode⟩ := hwell.decode_of_encode hencode
      exact ⟨m, m', rfl, happly, hspell, hdecode⟩

/-- Of two templates that are read as modules with the same pools a plan makes modules with the same pools, or it
    fails on both for the same reason. -/
theorem stamp_cases {template template' : List UInt8} {m : Module} {word : UInt32} {directory : List Table}
    {layout : List Slot} (hm : Module.decode template = .ok m)
    (hm' : Module.decode template' = .ok (m.reframed word directory layout)) (p : Plan) :
    (∃ error, stamp template p = .error error ∧ stamp template' p = .error error) ∨
      ∃ edited, (edited.WellFormed ∧ m.Kept edited) ∧ stamp template p = edited.encode ∧
        stamp template' p = (edited.reframed word directory layout).encode := by
  rw [stamp_eq hm, stamp_eq hm', p.apply_reframed]
  cases happly : p.apply m with
  | error error => exact .inl ⟨error, rfl, rfl⟩
  | ok edited => exact .inr ⟨edited, Plan.keeps_apply (Module.wellFormed_of_decode hm) happly, rfl, rfl⟩

end Stencil
