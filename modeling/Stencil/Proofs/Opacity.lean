import Stencil.Proofs.Format
import Stencil.Proofs.Position

/-! Two runs that differ in what is carried along only. Other contents of the same length in a carried table, and
    another flavor, change neither whether a template is read nor what a plan does to it or why the plan fails: they
    stand in the stamped module in place of those that stood there before. -/

namespace Stencil

/-! ### The bytes that are altered -/

/-- The place of the flavor in the bytes of a module. -/
def flavorPlace : Nat := 7

/-- Puts a word over the bytes that stand at `start`. -/
def overwrite (start : Nat) (word bytes : List UInt8) : List UInt8 :=
  bytes.take start ++ word ++ bytes.drop (start + word.length)

/-- Puts other contents over those that stand at `start`, and another flavor in its place. -/
def alter (start : Nat) (contents : List UInt8) (flavor : UInt8) (bytes : List UInt8) : List UInt8 :=
  overwrite start contents (bytes.set flavorPlace flavor)

theorem overwrite_append {start : Nat} {before old word after : List UInt8} (hstart : before.length = start)
    (hlength : word.length = old.length) :
    overwrite start word (before ++ (old ++ after)) = before ++ (word ++ after) := by
  have hstop : (before ++ old).length = start + word.length := by rw [List.length_append, hstart, hlength]
  rw [overwrite, List.take_left' hstart, ← List.append_assoc, List.drop_left' hstop, List.append_assoc]

/-- A version word with another flavor. -/
def withFlavor (word : UInt32) (flavor : UInt8) : UInt32 :=
  UInt32.ofNat (word.toNat % 2 ^ 24 + 2 ^ 24 * flavor.toNat)

theorem toNat_withFlavor (word : UInt32) (flavor : UInt8) :
    (withFlavor word flavor).toNat = word.toNat % 2 ^ 24 + 2 ^ 24 * flavor.toNat := by
  have := flavor.toNat_lt
  exact UInt32.toNat_ofNat_of_lt' (by unfold UInt32.size; omega)

theorem versionOf_withFlavor (word : UInt32) (flavor : UInt8) : versionOf (withFlavor word flavor) = versionOf word := by
  rw [Grammar.versionOf_eq, Grammar.versionOf_eq, toNat_withFlavor]
  omega

/-- The flavor is the last byte of the version word. -/
theorem encode_withFlavor (word : UInt32) (flavor : UInt8) :
    LittleEndian.encode 4 (withFlavor word flavor).toNat = (LittleEndian.encode 4 word.toNat).set 3 flavor := by
  have := flavor.toNat_lt
  rw [toNat_withFlavor]
  generalize word.toNat = n
  have h0 : (n % 2 ^ 24 + 2 ^ 24 * flavor.toNat) % 256 = n % 256 := by omega
  have h1 : (n % 2 ^ 24 + 2 ^ 24 * flavor.toNat) / 256 % 256 = n / 256 % 256 := by omega
  have h2 : (n % 2 ^ 24 + 2 ^ 24 * flavor.toNat) / 256 / 256 % 256 = n / 256 / 256 % 256 := by omega
  have h3 : (n % 2 ^ 24 + 2 ^ 24 * flavor.toNat) / 256 / 256 / 256 % 256 = flavor.toNat := by omega
  simp only [LittleEndian.encode, h0, h1, h2, h3, List.set_cons_succ, List.set_cons_zero, UInt8.ofNat_toNat]

/-! ### The module that is altered -/

/-- The slot with other contents, if it is the one of a carried table. -/
def Slot.withContents (table : Carried) (contents : List UInt8) : Slot → Slot
  | .pool p => .pool p
  | .carried t old => .carried t (if t = table then contents else old)

namespace Module

/-- The module with other contents in a carried table and another flavor. -/
def altered (m : Module) (table : Carried) (contents : List UInt8) (flavor : UInt8) : Module :=
  m.reframed (withFlavor m.versionWord flavor) m.directory (m.layout.map (Slot.withContents table contents))

/-- `m'` is `m` but for the contents of a carried table and the flavor. -/
structure Altered (table : Carried) (contents : List UInt8) (flavor : UInt8) (m m' : Module) : Prop where
  flavor : m'.flavor = flavor
  contents : m'.carried? (.carried table) = some contents
  version : m'.version = m.version
  directory : m'.directory = m.directory
  order : m'.layout.map Slot.kind = m.layout.map Slot.kind
  carried : ∀ kind, kind ≠ .carried table → m'.carried? kind = m.carried? kind
  identifiers : m'.identifiers = m.identifiers
  constants : m'.constants = m.constants
  addresses : m'.addresses = m.addresses
  handles : m'.handles = m.handles
  selfHandle : m'.selfHandle = m.selfHandle

/-- The contents of a carried table stand at `start` in the bytes of a module. -/
structure Carries (m : Module) (bytes : List UInt8) (table : Carried) (contents : List UInt8) (start : Nat) :
    Prop where
  carried : m.carried? (.carried table) = some contents
  begins : m.start? (.carried table) = some start
  holds : (Span.mk start contents.length).of bytes = contents

end Module

theorem Slot.kind_withContents (table : Carried) (contents : List UInt8) (slot : Slot) :
    (slot.withContents table contents).kind = slot.kind := by
  cases slot <;> rfl

theorem Slot.withContents_of_ne {table : Carried} {contents : List UInt8} {slot : Slot}
    (h : slot.kind ≠ .carried table) : slot.withContents table contents = slot := by
  cases slot with
  | pool p => rfl
  | carried t old =>
    have ht : t ≠ table := fun ht => h (congrArg Table.carried ht)
    rw [withContents, if_neg ht]

theorem Slot.pool_mem_map_withContents {table : Carried} {contents : List UInt8} {slots : List Slot} {p : Pool} :
    .pool p ∈ slots.map (Slot.withContents table contents) ↔ .pool p ∈ slots := by
  constructor
  · intro h
    obtain ⟨slot, hslot, heq⟩ := List.mem_map.mp h
    cases slot with
    | pool q => exact heq ▸ hslot
    | carried t old => cases heq
  · intro h
    exact List.mem_map.mpr ⟨_, h, rfl⟩

namespace Module
variable {m : Module} {table : Carried} {old new : List UInt8} {flavor : UInt8}

theorem carried_mem_layout (hold : m.carried? (.carried table) = some old) : .carried table old ∈ m.layout := by
  obtain ⟨table', hkind, hmem⟩ := mem_layout_of_carried? hold
  cases hkind
  exact hmem

theorem map_kind_altered (m : Module) (table : Carried) (new : List UInt8) (flavor : UInt8) :
    (m.altered table new flavor).layout.map Slot.kind = m.layout.map Slot.kind := by
  rw [altered, reframed, List.map_map]
  exact List.map_congr_left fun slot _ => slot.kind_withContents table new

theorem Listed.altered (h : m.Listed) (table : Carried) (new : List UInt8) (flavor : UInt8) :
    (m.altered table new flavor).Listed where
  nodup := h.nodup
  perm := (m.map_kind_altered table new flavor).symm ▸ h.perm

theorem version_altered (m : Module) (table : Carried) (new : List UInt8) (flavor : UInt8) :
    (m.altered table new flavor).version = m.version := versionOf_withFlavor m.versionWord flavor

/-- The slot of a carried table is the only one that is altered. -/
theorem Listed.layout_altered (h : m.Listed) {before after : List Slot} (new : List UInt8) (flavor : UInt8)
    (hlayout : m.layout = before ++ .carried table old :: after) :
    (m.altered table new flavor).layout = before ++ .carried table new :: after := by
  have hnodup := h.nodup_kinds
  rw [hlayout, List.map_append, List.map_cons, List.nodup_middle, List.nodup_cons, ← List.map_append] at hnodup
  have hothers {slots : List Slot} (hslots : slots ⊆ before ++ after) :
      slots.map (Slot.withContents table new) = slots := by
    refine (List.map_congr_left fun slot hslot => ?_).trans (List.map_id slots)
    exact Slot.withContents_of_ne fun hkind => hnodup.1 (List.mem_map.mpr ⟨slot, hslots hslot, hkind⟩)
  rw [Module.altered, reframed, hlayout, List.map_append, List.map_cons,
    hothers (List.subset_append_left before after), hothers (List.subset_append_right before after)]
  simp [Slot.withContents]

theorem Listed.sizes_altered (h : m.Listed) (flavor : UInt8) (hold : m.carried? (.carried table) = some old)
    (hlength : new.length = old.length) : (m.altered table new flavor).sizes = m.sizes := by
  obtain ⟨before, after, hlayout⟩ := List.append_of_mem (carried_mem_layout hold)
  have hencode : (m.altered table new flavor).encodeSlot = m.encodeSlot := m.encodeSlot_reframed _ _ _
  rw [sizes, sizes, tables_eq_map, tables_eq_map, h.layout_altered new flavor hlayout, hlayout, hencode]
  simp only [List.map_append, List.map_cons]
  rw [encodeSlot, encodeSlot, hlength]
  rfl

theorem Listed.carried?_altered (h : m.Listed) {kind : Table} (hkind : kind ≠ .carried table) :
    (m.altered table new flavor).carried? kind = m.carried? kind := by
  refine Option.ext fun contents => ?_
  rw [(h.altered table new flavor).carried?_eq_some_iff, h.carried?_eq_some_iff]
  refine exists_congr fun t => and_congr_right fun ht => ?_
  have hne : (Slot.carried t contents).kind ≠ .carried table := fun heq => hkind (ht.trans heq)
  constructor
  · intro hmem
    obtain ⟨slot, hslot, heq⟩ := List.mem_map.mp hmem
    have hslotKind : slot.kind = .carried t := by rw [← slot.kind_withContents table new, heq]; rfl
    rw [Slot.withContents_of_ne (hslotKind ▸ hne)] at heq
    exact heq ▸ hslot
  · intro hmem
    exact List.mem_map.mpr ⟨_, hmem, Slot.withContents_of_ne hne⟩

theorem Listed.altered_of_carried (h : m.Listed) (hold : m.carried? (.carried table) = some old) :
    Altered table new flavor m (m.altered table new flavor) where
  flavor := by
    have := flavor.toNat_lt
    refine UInt8.toNat_inj.mp ?_
    rw [Module.flavor, UInt32.toNat_toUInt8, UInt32.toNat_shiftRight, Nat.shiftRight_eq_div_pow]
    rw [show (m.altered table new flavor).versionWord = withFlavor m.versionWord flavor from rfl, toNat_withFlavor]
    change (m.versionWord.toNat % 2 ^ 24 + 2 ^ 24 * flavor.toNat) / 2 ^ 24 % 2 ^ 8 = flavor.toNat
    omega
  contents := by
    obtain ⟨before, after, hlayout⟩ := List.append_of_mem (carried_mem_layout hold)
    refine (h.altered table new flavor).carried?_eq_some_iff.mpr ⟨table, rfl, ?_⟩
    rw [h.layout_altered new flavor hlayout]
    exact List.mem_append_right _ List.mem_cons_self
  version := m.version_altered table new flavor
  directory := rfl
  order := m.map_kind_altered table new flavor
  carried _ hkind := h.carried?_altered hkind
  identifiers := rfl
  constants := rfl
  addresses := rfl
  handles := rfl
  selfHandle := rfl

/-! ### Its bytes -/

theorem front_altered (h : (m.altered table new flavor).entries = m.entries) :
    (m.altered table new flavor).front = m.front.set flavorPlace flavor := by
  have hword : (m.altered table new flavor).versionWord = withFlavor m.versionWord flavor := rfl
  have hmark : magic.length = 4 := rfl
  rw [front, front, h, hword, encode_withFlavor]
  simp only [List.append_assoc, flavorPlace, List.set_append, LittleEndian.length_encode, hmark]
  rfl

/-- The altered module is written with the bytes altered where its table stands. -/
theorem Listed.alter_spell (h : m.Listed) (flavor : UInt8) (hold : m.carried? (.carried table) = some old)
    (hlength : new.length = old.length) : ∃ start, m.Carries (m.spell m.entries) table old start ∧
      alter start new flavor (m.spell m.entries) =
        (m.altered table new flavor).spell (m.altered table new flavor).entries := by
  obtain ⟨before, after, hlayout⟩ := List.append_of_mem (carried_mem_layout hold)
  have hlayout' := h.layout_altered new flavor hlayout
  have hfront := front_altered (entries_congr (h.sizes_altered flavor hold hlength) rfl)
  have hplace : flavorPlace < m.front.length := by
    have hmark : magic.length = 4 := rfl
    simp only [front, List.length_append, LittleEndian.length_encode, hmark, flavorPlace]
    omega
  have hencode : (m.altered table new flavor).encodeSlot = m.encodeSlot := m.encodeSlot_reframed _ _ _
  refine ⟨(m.front ++ before.flatMap m.encodeSlot).length, ⟨hold, ?_, ?_⟩, ?_⟩
  · rw [List.length_append]
    exact start?_of_layout h hlayout
  · rw [spell_of_layout hlayout, ← List.append_assoc]
    exact Span.of_append rfl rfl
  · rw [alter, spell_of_layout hlayout, spell_of_layout hlayout', hfront, hencode, List.append_assoc,
      List.set_append_left _ _ hplace, ← List.append_assoc]
    refine overwrite_append ?_ hlength
    rw [List.length_append, List.length_append, List.length_set]

/-- A template with altered bytes is read as the altered module. -/
theorem decode_altered {template : List UInt8} (hm : decode template = .ok m) (flavor : UInt8)
    (hold : m.carried? (.carried table) = some old) (hlength : new.length = old.length) :
    ∃ start, m.Carries template table old start ∧
      decode (alter start new flavor template) = .ok (m.altered table new flavor) := by
  obtain ⟨hversion, hcomplete, ps, hps, rfl⟩ := decode_eq_ok_iff.mp hm
  obtain rfl := hps.entries_eq
  obtain ⟨start, hcarries, halter⟩ := hps.listed.alter_spell flavor hold hlength
  have hsizes := hps.listed.sizes_altered flavor hold hlength
  have hversion' := m.version_altered table new flavor
  have hlists : (m.altered table new flavor).Lists m.entries := by
    refine ⟨hps.kinds, hps.nodup, hps.fits, ?_⟩
    rw [placements_congr hsizes]
    exact hps.arranged
  have hcomplete' : (m.altered table new flavor).Complete :=
    hcomplete.reframed hversion' m.directory fun _ => Slot.pool_mem_map_withContents
  refine ⟨start, hcarries, decode_eq_ok_iff.mpr ⟨hversion'.symm ▸ hversion, hcomplete', m.entries, hlists, ?_⟩⟩
  rw [halter, entries_congr hsizes rfl]

/-- The altered module is written exactly where the other is, with the bytes altered. -/
theorem Listed.encode_altered (h : m.Listed) (flavor : UInt8) (hold : m.carried? (.carried table) = some old)
    (hlength : new.length = old.length) : match m.encode with
      | .error error => (m.altered table new flavor).encode = .error error
      | .ok out => ∃ start, m.Carries out table old start ∧
        (m.altered table new flavor).encode = .ok (alter start new flavor out) := by
  rw [h.encode_eq, (h.altered table new flavor).encode_eq, excess?_congr (h.sizes_altered flavor hold hlength)]
  cases m.excess? with
  | some reason => rfl
  | none =>
    obtain ⟨start, hcarries, halter⟩ := h.alter_spell flavor hold hlength
    exact ⟨start, hcarries, congrArg Except.ok halter.symm⟩

end Module

/-- The contents of a carried table and the flavor do not influence stamping. A template with others of the same
    length in their place is read as the same module but for them. Every plan does to it what it does to the
    template: it fails for the same reason, or what is stamped has the other contents where the table stands then, and
    the other flavor, and is the same in all else. -/
theorem stamp_alter {template old new : List UInt8} {m : Module} {table : Carried} {flavor : UInt8}
    (hm : Module.decode template = .ok m) (hold : m.carried? (.carried table) = some old)
    (hlength : new.length = old.length) : ∃ start, m.Carries template table old start ∧
      (∃ m', Module.decode (alter start new flavor template) = .ok m' ∧ Module.Altered table new flavor m m') ∧
      ∀ p : Plan, match stamp template p with
        | .error error => stamp (alter start new flavor template) p = .error error
        | .ok out => ∃ edited place, Module.decode out = .ok edited ∧ edited.Carries out table old place ∧
          stamp (alter start new flavor template) p = .ok (alter place new flavor out) := by
  obtain ⟨start, hcarries, hdecode⟩ := Module.decode_altered hm flavor hold hlength
  have hwell := Module.wellFormed_of_decode hm
  refine ⟨start, hcarries, ⟨_, hdecode, hwell.listed.altered_of_carried hold⟩, fun p => ?_⟩
  rcases stamp_cases hm hdecode p with ⟨error, hstamp, hstamp'⟩ | ⟨edited, ⟨hwell', hkept⟩, hstamp, hstamp'⟩
  · rw [hstamp]
    exact hstamp'
  · have hold' : edited.carried? (.carried table) = some old := by
      rw [Module.carried?, hkept.layout]
      exact hold
    have hencode := hwell'.listed.encode_altered flavor hold' hlength
    rw [Module.altered, hkept.versionWord, hkept.directory, hkept.layout] at hencode
    rw [hstamp, hstamp']
    cases hout : edited.encode with
    | error error =>
      rw [hout] at hencode
      exact hencode
    | ok out =>
      rw [hout] at hencode
      obtain ⟨place, hcarries', heq⟩ := hencode
      exact ⟨edited, place, (hwell'.decode_of_encode hout).2, hcarries', heq⟩

/-- A module whose metadata are the bytes of one of its identifiers. -/
def Module.carrying : Module :=
  { Module.sample with
    directory := [.pool .constants, .carried .metadata, .pool .identifiers]
    layout := [.pool .identifiers, .carried .metadata [4, 0x70, 0x61, 0x70, 0x61], .pool .constants] }

def Module.carryingBytes : List UInt8 :=
  [0xA1, 0x1C, 0xEB, 0x0B, 4, 0, 0, 0x0A, 3] ++ [0x06, 15, 8, 0x10, 10, 5, 0x07, 0, 10] ++
    [4, 0x70, 0x61, 0x70, 0x61, 4, 0x50, 0x41, 0x50, 0x41] ++ [4, 0x70, 0x61, 0x70, 0x61] ++
    [2, 1, 5, 10, 2, 2, 1, 0x61]

open Stencil.Module in
theorem stamp_alter_carrying : decode carryingBytes = .ok carrying ∧
    carrying.carried? (.carried .metadata) = some [4, 0x70, 0x61, 0x70, 0x61] ∧
    (stamp carryingBytes .sample).isOk ∧
    ∃ start, carrying.Carries carryingBytes .metadata [4, 0x70, 0x61, 0x70, 0x61] start ∧
      (∃ m', decode (alter start [0, 1, 2, 3, 4] 0xFF carryingBytes) = .ok m' ∧
        Altered .metadata [0, 1, 2, 3, 4] 0xFF carrying m') ∧
      ∀ p : Plan, match stamp carryingBytes p with
        | .error error => stamp (alter start [0, 1, 2, 3, 4] 0xFF carryingBytes) p = .error error
        | .ok out => ∃ edited place, decode out = .ok edited ∧
          edited.Carries out .metadata [4, 0x70, 0x61, 0x70, 0x61] place ∧
          stamp (alter start [0, 1, 2, 3, 4] 0xFF carryingBytes) p =
            .ok (alter place [0, 1, 2, 3, 4] 0xFF out) :=
  have hdecode : decode carryingBytes = .ok carrying := by decide +kernel
  have hold : carrying.carried? (.carried .metadata) = some [4, 0x70, 0x61, 0x70, 0x61] := by decide +kernel
  ⟨hdecode, hold, by decide +kernel, stamp_alter hdecode hold (by decide)⟩

end Stencil
