import Stencil.Proofs.Writing

/-! The order of the directory. Two directories with the same entries list the same tables, and their tables are
    read in the same order but for empty ones next to each other. Neither what tables hold nor where they stand
    depends on the order of those, and edits keep empty tables empty, so stamping depends on the order of the
    directory only as far as it writes a directory in that order. -/

namespace Stencil

/-! ### Empty elements in another order -/

/-- `bs` are `as` with elements next to each other exchanged, both of them empty, any number of times. -/
inductive Shuffle {α : Type} (empty : α → Prop) : List α → List α → Prop
  | nil : Shuffle empty [] []
  | cons (a : α) {as bs : List α} (h : Shuffle empty as bs) : Shuffle empty (a :: as) (a :: bs)
  | swap {a b : α} (ha : empty a) (hb : empty b) (as : List α) : Shuffle empty (a :: b :: as) (b :: a :: as)
  | trans {as bs cs : List α} (h : Shuffle empty as bs) (h' : Shuffle empty bs cs) : Shuffle empty as cs

namespace Shuffle
variable {α β : Type} {empty : α → Prop} {as bs : List α}

theorem refl (as : List α) : Shuffle empty as as := by
  induction as with
  | nil => exact nil
  | cons a as ih => exact ih.cons a

theorem perm (h : Shuffle empty as bs) : as.Perm bs := by
  induction h with
  | nil => exact .nil
  | cons a _ ih => exact ih.cons a
  | swap _ _ as => exact .swap _ _ as
  | trans _ _ ih ih' => exact ih.trans ih'

theorem map {empty' : β → Prop} {f : α → β} (h : Shuffle empty as bs) (hf : ∀ a, empty a → empty' (f a)) :
    Shuffle empty' (as.map f) (bs.map f) := by
  induction h with
  | nil => exact nil
  | cons a _ ih => exact ih.cons (f a)
  | swap ha hb as => exact swap (hf _ ha) (hf _ hb) (as.map f)
  | trans _ _ ih ih' => exact ih.trans ih'

/-- A shuffle of images is the images of a shuffle. -/
theorem exists_of_map {empty : β → Prop} {f : α → β} {bs : List β} (h : Shuffle empty (as.map f) bs) :
    ∃ as', as'.map f = bs ∧ Shuffle (fun a => empty (f a)) as as' := by
  generalize hmap : as.map f = cs at h
  induction h generalizing as with
  | nil =>
    obtain rfl := List.map_eq_nil_iff.mp hmap
    exact ⟨[], rfl, nil⟩
  | cons b _ ih =>
    obtain ⟨a, as, rfl, rfl, hrest⟩ := List.map_eq_cons_iff.mp hmap
    obtain ⟨as', rfl, h⟩ := ih hrest
    exact ⟨a :: as', rfl, h.cons a⟩
  | swap ha hb bs =>
    obtain ⟨a, as, rfl, rfl, hrest⟩ := List.map_eq_cons_iff.mp hmap
    obtain ⟨b, as', rfl, rfl, rfl⟩ := List.map_eq_cons_iff.mp hrest
    exact ⟨b :: a :: as', rfl, swap (a := a) (b := b) ha hb as'⟩
  | trans _ _ ih ih' =>
    obtain ⟨as', hmap', h⟩ := ih hmap
    obtain ⟨as'', rfl, h'⟩ := ih' hmap'
    exact ⟨as'', rfl, h.trans h'⟩

theorem flatMap_eq {f : α → List β} (h : Shuffle (fun a => f a = []) as bs) : bs.flatMap f = as.flatMap f := by
  induction h with
  | nil => rfl
  | cons a _ ih => rw [List.flatMap_cons, List.flatMap_cons, ih]
  | swap ha hb as => simp only [List.flatMap_cons, ha, hb]
  | trans _ _ ih ih' => exact ih'.trans ih

theorem find?_eq {p : α → Bool} (h : Shuffle empty as bs) (hempty : ∀ a, empty a → p a = false) :
    bs.find? p = as.find? p := by
  induction h with
  | nil => rfl
  | cons a _ ih => rw [List.find?_cons, List.find?_cons, ih]
  | swap ha hb as => simp only [List.find?_cons, hempty _ ha, hempty _ hb]
  | trans _ _ ih ih' => exact ih'.trans ih

/-- An empty element may be moved past others that are empty. -/
theorem middle {a : α} {before : List α} (ha : empty a) (hbefore : ∀ b ∈ before, empty b) (after : List α) :
    Shuffle empty (a :: (before ++ after)) (before ++ a :: after) := by
  induction before with
  | nil => exact refl (a :: after)
  | cons b before ih =>
    obtain ⟨hb, hbefore⟩ := List.forall_mem_cons.mp hbefore
    exact (swap ha hb (before ++ after)).trans ((ih hbefore).cons b)

end Shuffle

/-! ### Tables in another order -/

/-- Tables before one that stands at the start are empty, and may be left out. -/
theorem Tiles.of_start {start stop : Nat} {before after : List Placement} {p : Placement} (hp : p.offset = start)
    (h : Tiles start (before ++ p :: after) stop) :
    (∀ q ∈ before, q.offset = start ∧ q.length = 0) ∧ Tiles start (p :: after) stop := by
  induction before with
  | nil => exact ⟨by simp, h⟩
  | cons q before ih =>
    rw [List.cons_append, tiles_cons_iff] at h
    obtain ⟨hq, h⟩ := h
    have hle := h.start_le p (List.mem_append_right _ List.mem_cons_self)
    have hlength : q.length = 0 := by omega
    rw [hlength] at h
    obtain ⟨hbefore, h⟩ := ih h
    exact ⟨List.forall_mem_cons.mpr ⟨⟨hq, hlength⟩, hbefore⟩, h⟩

theorem Tiles.of_empty {start stop : Nat} {before after : List Placement}
    (hbefore : ∀ q ∈ before, q.offset = start ∧ q.length = 0) (h : Tiles start after stop) :
    Tiles start (before ++ after) stop := by
  induction before with
  | nil => exact h
  | cons q before ih =>
    obtain ⟨⟨hq, hlength⟩, hbefore⟩ := List.forall_mem_cons.mp hbefore
    rw [List.cons_append, tiles_cons_iff, hlength]
    exact ⟨hq, ih hbefore⟩

/-- Tables that follow one another in two orders do so in the same order but for the empty ones. -/
theorem Tiles.shuffle {start stop : Nat} {ps qs : List Placement} (h : Tiles start ps stop) (h' : Tiles start qs stop)
    (hperm : qs.Perm ps) : Shuffle (fun p => p.length = 0) ps qs := by
  induction h generalizing qs with
  | nil =>
    rw [hperm.eq_nil]
    exact .nil
  | @cons p ps stop h ih =>
    obtain ⟨before, after, rfl⟩ := List.append_of_mem (hperm.mem_iff.mpr List.mem_cons_self)
    have hrest : (before ++ after).Perm ps := List.perm_middle.symm.trans hperm |>.cons_inv
    obtain ⟨hbefore, hafter⟩ := h'.of_start rfl
    obtain ⟨-, hafter⟩ := tiles_cons_iff.mp hafter
    by_cases hp : p.length = 0
    · rw [hp, Nat.add_zero] at h hafter ih
      refine ((ih (.of_empty hbefore hafter) hrest).cons p).trans ?_
      exact .middle (a := p) hp (fun q hq => (hbefore q hq).2) after
    · -- A table before one that is not empty stands before it in the other order too.
      cases before with
      | nil => exact (ih hafter hrest).cons p
      | cons q before =>
        have hle := h.start_le q (hrest.mem_iff.mp List.mem_cons_self)
        have := (hbefore q List.mem_cons_self).1
        omega

namespace Module

theorem perm_placements {start : Nat} {tables tables' : List (Table × List UInt8)}
    (h : Shuffle (fun t => t.2 = []) tables tables') : (placements start tables).Perm (placements start tables') := by
  induction h generalizing start with
  | nil => exact .nil
  | cons t _ ih => exact ih.cons _
  | swap ht ht' tables =>
    rename_i t t'
    obtain ⟨kind, contents⟩ := t
    obtain ⟨kind', contents'⟩ := t'
    cases ht
    cases ht'
    exact .swap _ _ _
  | trans _ _ ih ih' => exact ih.trans ih'

end Module

/-! ### Directories in another order -/

/-- What stands at the given indices, in their order. -/
def reorder {α : Type} (indices : List Nat) (as : List α) : List α := indices.filterMap (as[·]?)

section Reorder
variable {α β : Type} {indices : List Nat} {as : List α}

theorem map_reorder (f : α → β) (indices : List Nat) (as : List α) :
    (reorder indices as).map f = reorder indices (as.map f) := by
  rw [reorder, List.map_filterMap, reorder]
  simp only [List.getElem?_map]

theorem reorder_range (as : List α) : reorder (List.range as.length) as = as := by
  induction as with
  | nil => rfl
  | cons a as ih =>
    rw [List.length_cons, List.range_succ_eq_map, reorder, List.filterMap_cons, List.filterMap_map]
    exact congrArg (a :: ·) ih

theorem perm_reorder (h : indices.Perm (List.range as.length)) : (reorder indices as).Perm as := by
  have hperm := h.filterMap (as[·]?)
  rw [show (List.range as.length).filterMap (as[·]?) = as from reorder_range as] at hperm
  exact hperm

end Reorder

namespace Module

/-- The module with its directory in another order and its tables as that order has them. -/
def reordered (m : Module) (indices : List Nat) (slots : List Slot) : Module :=
  m.reframed m.versionWord (reorder indices m.directory) slots

/-- Tables may be shuffled where they are empty. -/
def Shuffled (m : Module) (slots : List Slot) : Prop := Shuffle (fun slot => m.encodeSlot slot = []) m.layout slots

theorem shuffle_tables {m : Module} {slots : List Slot} (h : m.Shuffled slots) (indices : List Nat) :
    Shuffle (fun t => t.2 = []) m.tables (m.reordered indices slots).tables := by
  have hencode : (m.reordered indices slots).encodeSlot = m.encodeSlot := m.encodeSlot_reframed _ _ _
  rw [tables, tables, hencode]
  exact h.map fun _ hslot => hslot

theorem contents_reordered {m : Module} {slots : List Slot} (h : m.Shuffled slots) (indices : List Nat) :
    (m.reordered indices slots).contents = m.contents := (shuffle_tables h indices).flatMap_eq

theorem excess?_reordered {m : Module} {slots : List Slot} (h : m.Shuffled slots) (indices : List Nat) :
    (m.reordered indices slots).excess? = m.excess? := by
  have hfind := (shuffle_tables h indices).find?_eq (p := fun t => decide (maxLength < t.2.length)) fun t ht => by
    rw [ht]
    rfl
  rw [excess?, excess?, hfind, contents_reordered h indices]

section Listed
variable {m : Module} {indices : List Nat} {slots : List Slot} (h : m.Listed)
  (hindices : indices.Perm (List.range m.directory.length)) (hslots : m.Shuffled slots)
include h hindices hslots

theorem Listed.reordered : (m.reordered indices slots).Listed where
  nodup := (perm_reorder hindices).nodup_iff.mpr h.nodup
  perm := (perm_reorder hindices).trans (h.perm.trans (hslots.perm.map Slot.kind))

theorem Listed.entries_reordered : (m.reordered indices slots).entries = reorder indices m.entries := by
  obtain ⟨hkinds, hplaced⟩ := h.map_kind_entries
  refine (h.reordered hindices hslots).entries_eq ?_ fun p hp => ?_
  · rw [map_reorder, hkinds]
    rfl
  · obtain ⟨index, -, hindex⟩ := List.mem_filterMap.mp hp
    exact (perm_placements (shuffle_tables hslots indices)).mem_iff.mp (hplaced p (List.mem_of_getElem? hindex))

theorem Listed.spell_reordered : (m.reordered indices slots).spell (m.reordered indices slots).entries =
    m.spell (reorder indices m.entries) := by
  rw [h.entries_reordered hindices hslots, spell, spell, body, body, contents_reordered hslots]
  rfl

/-- The directory is written in the other order; all else is written as it is. -/
theorem Listed.encode_reordered : match m.encode with
    | .error error => (m.reordered indices slots).encode = .error error
    | .ok out => out = m.spell m.entries ∧
      (m.reordered indices slots).encode = .ok (m.spell (reorder indices m.entries)) := by
  rw [h.encode_eq, (h.reordered hindices hslots).encode_eq, excess?_reordered hslots]
  cases m.excess? with
  | some reason => rfl
  | none => exact ⟨rfl, congrArg Except.ok (h.spell_reordered hindices hslots)⟩

end Listed

/-- Where the tables of a module follow one another, those of a shuffle of them do. -/
theorem exists_shuffled {m : Module} {placed : List Placement} (hperm : placed.Perm (placements 0 m.tables))
    (htiles : Tiles 0 placed m.contents.length) :
    ∃ slots, m.Shuffled slots ∧ ∀ indices, placements 0 (m.reordered indices slots).tables = placed := by
  have hsizes : Shuffle (fun t : Table × Nat => t.2 = 0)
      (m.layout.map fun slot => (slot.kind, (m.encodeSlot slot).length)) (placed.map fun p => (p.kind, p.length)) := by
    rw [← tables_eq_map, ← map_placements 0 m.tables]
    exact (m.tiles_placements.shuffle htiles hperm).map fun _ hp => hp
  obtain ⟨slots, hmap, hslots⟩ := hsizes.exists_of_map
  simp only [List.length_eq_zero_iff] at hslots
  refine ⟨slots, hslots, fun indices => ?_⟩
  have hencode : (m.reordered indices slots).encodeSlot = m.encodeSlot := m.encodeSlot_reframed _ _ _
  refine ((tiles_iff_placements ?_).mp htiles).1.symm
  rw [tables_eq_map, hencode]
  exact hmap.symm

/-- A template with its directory in another order is read as the module with its directory in that order. -/
theorem decode_reordered {template : List UInt8} {m : Module} (hm : decode template = .ok m) {indices : List Nat}
    (hindices : indices.Perm (List.range m.directory.length)) :
    ∃ slots, m.Shuffled slots ∧ decode (m.spell (reorder indices m.entries)) = .ok (m.reordered indices slots) := by
  obtain ⟨hversion, hcomplete, ps, hps, rfl⟩ := decode_eq_ok_iff.mp hm
  obtain rfl := hps.entries_eq
  have hperm : (reorder indices m.entries).Perm m.entries := by
    refine perm_reorder ?_
    rw [← hps.kinds, List.length_map] at hindices
    exact hindices
  have hnodup : ((reorder indices m.entries).map (·.kind)).Nodup :=
    (hperm.map (·.kind)).nodup_iff.mpr (hps.kinds ▸ hps.nodup)
  -- The tables are found in the order in which the other directory is read.
  have harranged := arranged_arrange hnodup 0
  have hplaced := hps.arranged.1.trans hperm.symm
  obtain ⟨slots, hslots, hplacements⟩ :=
    exists_shuffled (harranged.1.trans hplaced.symm) (harranged.tiles hplaced m.tiles_placements)
  rw [← hplacements indices] at harranged
  have hlisted := hps.listed.reordered hindices hslots
  have hlists : (m.reordered indices slots).Lists (reorder indices m.entries) := by
    refine ⟨?_, hlisted.nodup, fun p hp => hps.fits p (hperm.mem_iff.mp hp), harranged⟩
    rw [map_reorder, hps.kinds]
    rfl
  have hcomplete' : (m.reordered indices slots).Complete :=
    hcomplete.reframed rfl (reorder indices m.directory) fun _ => hslots.perm.mem_iff.symm
  refine ⟨slots, hslots, decode_eq_ok_iff.mpr ⟨hversion, hcomplete', _, hlists, ?_⟩⟩
  rw [← hps.listed.spell_reordered hindices hslots, hlists.entries_eq]

/-- Two modules hold the same, in whatever order their directories list it. -/
structure SameContents (m m' : Module) : Prop where
  versionWord : m'.versionWord = m.versionWord
  identifiers : m'.identifiers = m.identifiers
  constants : m'.constants = m.constants
  addresses : m'.addresses = m.addresses
  handles : m'.handles = m.handles
  selfHandle : m'.selfHandle = m.selfHandle
  carried : ∀ kind, m'.carried? kind = m.carried? kind
  name : m'.name? = m.name?
  references : m'.dangling? = m.dangling?

theorem Listed.sameContents_reordered {m : Module} (h : m.Listed) {indices : List Nat}
    (hindices : indices.Perm (List.range m.directory.length)) {slots : List Slot} (hslots : m.Shuffled slots) :
    SameContents m (m.reordered indices slots) where
  versionWord := rfl
  identifiers := rfl
  constants := rfl
  addresses := rfl
  handles := rfl
  selfHandle := rfl
  carried kind := by
    refine Option.ext fun contents => ?_
    rw [(h.reordered hindices hslots).carried?_eq_some_iff, h.carried?_eq_some_iff]
    exact exists_congr fun table => and_congr_right fun _ => hslots.perm.mem_iff.symm
  name := rfl
  references := dangling?_congr rfl rfl rfl rfl

end Module

/-- The order of the directory does not matter to what a module holds. A template whose directory lists its entries
    in another order, with all other bytes as they are, is read as a module of the same contents. Every plan does to
    it what it does to the template: it fails for the same reason, or the directory that is written has its entries
    in that order and all other bytes are the same. -/
theorem stamp_reorder {template : List UInt8} {m : Module} {indices : List Nat} (hm : Module.decode template = .ok m)
    (hindices : indices.Perm (List.range m.directory.length)) :
    template = m.spell m.entries ∧
      (∃ m', Module.decode (m.spell (reorder indices m.entries)) = .ok m' ∧
        m'.directory = reorder indices m.directory ∧ m.SameContents m') ∧
      ∀ p : Plan, match stamp template p with
        | .error error => stamp (m.spell (reorder indices m.entries)) p = .error error
        | .ok out => ∃ edited, Module.decode out = .ok edited ∧ out = edited.spell edited.entries ∧
          stamp (m.spell (reorder indices m.entries)) p = .ok (edited.spell (reorder indices edited.entries)) := by
  obtain ⟨slots, hslots, hdecode⟩ := Module.decode_reordered hm hindices
  have hwell := Module.wellFormed_of_decode hm
  refine ⟨Module.eq_spell_of_decode hm, ⟨_, hdecode, rfl, hwell.listed.sameContents_reordered hindices hslots⟩,
    fun p => ?_⟩
  rcases stamp_cases hm hdecode p with ⟨error, hstamp, hstamp'⟩ | ⟨edited, ⟨hwell', hkept⟩, hstamp, hstamp'⟩
  · rw [hstamp]
    exact hstamp'
  · -- Edits keep empty tables empty, so the tables of both are in the same order still but for those.
    have hslots' : edited.Shuffled slots := by
      rw [Module.Shuffled, hkept.layout]
      simp only [hkept.encodeSlot_eq_nil_iff]
      exact hslots
    have hencode := hwell'.listed.encode_reordered (hkept.directory ▸ hindices) hslots'
    rw [Module.reordered, hkept.versionWord, hkept.directory] at hencode
    rw [hstamp, hstamp']
    cases hout : edited.encode with
    | error error =>
      rw [hout] at hencode
      exact hencode
    | ok out =>
      rw [hout] at hencode
      obtain ⟨hspell, heq⟩ := hencode
      exact ⟨edited, (hwell'.decode_of_encode hout).2, hspell, heq⟩

/-- The sample's two empty tables change places in its directory, and so do its pools. -/
theorem stamp_reorder_sample : Module.decode Module.sampleBytes = .ok Module.sample ∧
    [3, 2, 1, 0].Perm (List.range Module.sample.directory.length) ∧
    (stamp Module.sampleBytes .sample).isOk ∧
    Module.sampleBytes = Module.sample.spell Module.sample.entries ∧
    (∃ m', Module.decode (Module.sample.spell (reorder [3, 2, 1, 0] Module.sample.entries)) = .ok m' ∧
      m'.directory = reorder [3, 2, 1, 0] Module.sample.directory ∧ Module.sample.SameContents m') ∧
    ∀ p : Plan, match stamp Module.sampleBytes p with
      | .error error => stamp (Module.sample.spell (reorder [3, 2, 1, 0] Module.sample.entries)) p = .error error
      | .ok out => ∃ edited, Module.decode out = .ok edited ∧ out = edited.spell edited.entries ∧
        stamp (Module.sample.spell (reorder [3, 2, 1, 0] Module.sample.entries)) p =
          .ok (edited.spell (reorder [3, 2, 1, 0] edited.entries)) :=
  have hdecode : Module.decode Module.sampleBytes = .ok Module.sample := by decide +kernel
  have hindices : [3, 2, 1, 0].Perm (List.range Module.sample.directory.length) := by decide
  ⟨hdecode, hindices, by decide +kernel, stamp_reorder hdecode hindices⟩

end Stencil
