import Mathlib.Data.List.Forall2
import Stencil.Proofs.Decoding
import Stencil.Proofs.Grammar

/-! Exactly the bytes of the documented format are read. The format asks for tables that follow one another in
    some order; reading looks for them in one order only, which is enough. -/

namespace Stencil

namespace Grammar

def Entry (p : Placement) : Language := fun bytes => ∃ offset length,
  (p.offset ≤ 0xFFFFFFFF ∧ Uleb128.Spells p.offset offset) ∧ (p.length ≤ 0xFFFFFFFF ∧ Uleb128.Spells p.length length) ∧
    bytes = p.kind.code :: (offset ++ length)

/-- The bytes where a table stands. -/
def slice (contents : List UInt8) (p : Placement) : List UInt8 := (contents.drop p.offset).take p.length

/-- A module as the format has it, in the order of its parts. -/
inductive IsModule : Language
  | mk {word count contents trailer : List UInt8} {version : Nat} {ps order : List Placement}
    {entries : List (List UInt8)}
    (hword : word.length = 4) (hversion : version = LittleEndian.value word % 2 ^ 24)
    (hsupported : 1 ≤ version ∧ version ≤ 7)
    (hcount : Uleb128.Spells ps.length count)
    (hentries : List.Forall₂ Entry ps entries)
    (hkinds : (ps.map (·.kind)).Nodup)
    (horder : order.Perm ps) (htiles : Tiles 0 order contents.length)
    (hcontents : ∀ p ∈ ps, Contents p.kind (slice contents p))
    (htrailer : if 5 ≤ version then Number 0xFFFF trailer else trailer = []) :
    IsModule ([0xA1, 0x1C, 0xEB, 0x0B] ++ word ++ count ++ entries.flatten ++ contents ++ trailer)

theorem entry_iff {p : Placement} {bytes : List UInt8} : Entry p bytes ↔ p.Fits ∧ bytes = p.encode := by
  unfold Entry
  simp only [Uleb128.spells_iff]
  constructor
  · intro h
    obtain ⟨_, _, ⟨hoffset, rfl⟩, ⟨hlength, rfl⟩, rfl⟩ := h
    exact ⟨⟨hoffset, hlength⟩, rfl⟩
  · intro h
    obtain ⟨⟨hoffset, hlength⟩, rfl⟩ := h
    exact ⟨_, _, ⟨hoffset, rfl⟩, ⟨hlength, rfl⟩, rfl⟩

theorem entries_iff {ps : List Placement} {entries : List (List UInt8)} :
    List.Forall₂ Entry ps entries ↔ (∀ p ∈ ps, p.Fits) ∧ entries = ps.map Placement.encode := by
  induction ps generalizing entries with
  | nil => simp
  | cons p ps ih =>
    rw [List.forall_mem_cons, List.map_cons, List.forall₂_cons_left_iff]
    constructor
    · intro h
      obtain ⟨_, _, hentry, hentries, rfl⟩ := h
      obtain ⟨hp, rfl⟩ := entry_iff.mp hentry
      obtain ⟨hps, rfl⟩ := ih.mp hentries
      exact ⟨⟨hp, hps⟩, rfl⟩
    · intro h
      obtain ⟨⟨hp, hps⟩, rfl⟩ := h
      exact ⟨_, _, entry_iff.mpr ⟨hp, rfl⟩, ih.mpr ⟨hps, rfl⟩, rfl⟩

theorem trailer_iff {version : Nat} {trailer : List UInt8} :
    (if 5 ≤ version then Number 0xFFFF trailer else trailer = []) ↔ ∃ handle : Option UInt16,
      (handle.isSome ↔ selfHandleVersion ≤ version) ∧ trailer = Module.trailer handle := by
  unfold selfHandleVersion
  split
  · rename_i hwrites
    rw [number16_iff]
    constructor
    · intro h
      obtain ⟨n, rfl⟩ := h
      exact ⟨some n, iff_of_true rfl hwrites, rfl⟩
    · intro h
      obtain ⟨handle, hsome, rfl⟩ := h
      obtain ⟨n, rfl⟩ := Option.isSome_iff_exists.mp (hsome.mpr hwrites)
      exact ⟨n, rfl⟩
  · rename_i hwrites
    constructor
    · rintro rfl
      exact ⟨none, iff_of_false Bool.false_ne_true hwrites, rfl⟩
    · intro h
      obtain ⟨handle, hsome, rfl⟩ := h
      cases handle with
      | none => rfl
      | some n => exact absurd (hsome.mp rfl) hwrites

theorem toNat_ofNat_value {word : List UInt8} (hword : word.length = 4) :
    (UInt32.ofNat (LittleEndian.value word)).toNat = LittleEndian.value word := by
  have hlt := LittleEndian.value_lt word
  rw [hword] at hlt
  exact UInt32.toNat_ofNat'.trans (Nat.mod_eq_of_lt hlt)

theorem encode_toNat_ofNat_value {word : List UInt8} (hword : word.length = 4) :
    LittleEndian.encode 4 (UInt32.ofNat (LittleEndian.value word)).toNat = word := by
  rw [toNat_ofNat_value hword, ← hword, LittleEndian.encode_value]

theorem versionOf_eq (word : UInt32) : versionOf word = word.toNat % 2 ^ 24 := by
  rw [versionOf, UInt32.toNat_and]
  exact Nat.and_two_pow_sub_one_eq_mod word.toNat 24

/-! ### The bytes of tables -/

theorem end_le_of_tiles {start stop : Nat} {ps : List Placement} (h : Tiles start ps stop) {p : Placement}
    (hp : p ∈ ps) : p.offset + p.length ≤ stop := by
  induction h with
  | nil => cases hp
  | cons h ih =>
    rcases List.mem_cons.mp hp with rfl | hp
    · exact h.le
    · exact ih hp

theorem length_slice {contents : List UInt8} {p : Placement} (h : p.offset + p.length ≤ contents.length) :
    (slice contents p).length = p.length := by
  rw [slice, List.length_take, List.length_drop]
  omega

/-- Tables that follow one another are the bytes from the first to the end of the last. -/
theorem flatMap_slice (contents : List UInt8) {start stop : Nat} {ps : List Placement} (h : Tiles start ps stop) :
    ps.flatMap (slice contents) = (contents.drop start).take (stop - start) := by
  induction h with
  | nil => rw [List.flatMap_nil, Nat.sub_self, List.take_zero]
  | @cons p rest stop h ih =>
    have hstop : stop - p.offset = p.length + (stop - (p.offset + p.length)) := by
      have := h.le
      omega
    rw [List.flatMap_cons, ih, slice, hstop, List.take_add, List.drop_drop]

theorem slice_of_mem_placements (front : List UInt8) {start : Nat} (hfront : front.length = start)
    {tables : List (Table × List UInt8)} {p : Placement} (hp : p ∈ Module.placements start tables) :
    (p.kind, slice (front ++ tables.flatMap (·.2)) p) ∈ tables := by
  induction tables generalizing front start with
  | nil => cases hp
  | cons t tables ih =>
    obtain ⟨kind, contents⟩ := t
    rw [List.flatMap_cons]
    rcases List.mem_cons.mp hp with rfl | hp
    · rw [slice, List.drop_left' hfront, List.take_left]
      exact List.mem_cons_self
    · rw [← List.append_assoc]
      exact List.mem_cons_of_mem _ (ih _ (by rw [List.length_append, hfront]) hp)

/-! ### Reading the format -/

/-- What is read is in the format. -/
theorem isModule_of_decode {bytes : List UInt8} {m : Module} (h : Module.decode bytes = .ok m) : IsModule bytes := by
  obtain ⟨hversion, hcomplete, ps, hps, rfl⟩ := Module.decode_eq_ok_iff.mp h
  have hword : m.version = LittleEndian.value (LittleEndian.encode 4 m.versionWord.toNat) % 2 ^ 24 := by
    rw [LittleEndian.value_encode m.versionWord.toNat_lt, Module.version, versionOf_eq]
  have hcontents : ∀ p ∈ ps, Contents p.kind (slice m.contents p) := by
    intro p hp
    have hmem := slice_of_mem_placements [] rfl (hps.arranged.1.mem_iff.mpr hp)
    obtain ⟨slot, hslot, heq⟩ := List.mem_map.mp hmem
    obtain ⟨hkind, hslice⟩ := Prod.mk.inj heq
    have hlen : (slice m.contents p).length ≤ maxLength :=
      (List.length_take_le _ _).trans (hps.fits p hp).2
    rw [← hkind]
    cases slot with
    | pool q => exact (contents_iff hlen).mpr ⟨m.records q, hcomplete.records q hslot, hslice ▸ m.encodePool_eq q⟩
    | carried table contents => trivial
  have htiles : Tiles 0 (Module.placements 0 m.tables) m.contents.length :=
    (Module.tiles_iff_placements (Module.map_placements 0 m.tables)).mpr ⟨rfl, (Nat.zero_add _).symm⟩
  have hmodule := IsModule.mk (LittleEndian.length_encode 4 m.versionWord.toNat) hword hversion
    (Uleb128.spells_iff.mpr rfl) (entries_iff.mpr ⟨hps.fits, rfl⟩) (hps.kinds ▸ hps.nodup) hps.arranged.1 htiles
    hcontents (trailer_iff.mpr ⟨m.selfHandle, hcomplete.selfHandle, rfl⟩)
  rw [← List.flatMap_def] at hmodule
  simpa only [Module.spell, Module.body, magic, List.append_assoc] using hmodule

/-- A pool has the records of the one table of its kind, or none. -/
theorem exists_records {contents : List UInt8} {ps : List Placement} (hkinds : (ps.map (·.kind)).Nodup)
    (hfits : ∀ p ∈ ps, p.Fits) (hcontents : ∀ p ∈ ps, Contents p.kind (slice contents p)) (q : Pool) :
    ∃ as : List q.Record, (∀ p ∈ ps, p.kind = .pool q → (∀ a ∈ as, q.Fits a) ∧
      slice contents p = as.flatMap q.encode) ∧ (.pool q ∉ ps.map (·.kind) → as = []) := by
  by_cases hq : .pool q ∈ ps.map (·.kind)
  · obtain ⟨p, hp, hkind⟩ := List.mem_map.mp hq
    have hlen : (slice contents p).length ≤ maxLength := (List.length_take_le _ _).trans (hfits p hp).2
    have hpool := hcontents p hp
    rw [hkind] at hpool
    obtain ⟨as, has⟩ := (contents_iff hlen).mp hpool
    refine ⟨as, fun p' hp' hkind' => ?_, fun h => absurd hq h⟩
    rw [List.inj_on_of_nodup_map hkinds hp' hp (hkind'.trans hkind.symm)]
    exact has
  · refine ⟨[], fun p hp hkind => ?_, fun _ => rfl⟩
    exact absurd (List.mem_map.mpr ⟨p, hp, hkind⟩) hq

def slotAt (contents : List UInt8) (p : Placement) : Slot :=
  match p.kind with
  | .pool q => .pool q
  | .carried table => .carried table (slice contents p)

theorem kind_slotAt (contents : List UInt8) (p : Placement) : (slotAt contents p).kind = p.kind := by
  unfold slotAt
  split <;> rename_i heq <;> exact heq.symm

theorem pool_mem_map_slotAt_iff {contents : List UInt8} {placed : List Placement} {q : Pool} :
    .pool q ∈ placed.map (slotAt contents) ↔ ∃ p ∈ placed, p.kind = .pool q := by
  rw [List.mem_map]
  refine exists_congr fun p => and_congr_right fun _ => ?_
  unfold slotAt
  split <;> rename_i heq <;> simp [heq]

/-- The module that tables and records make up. -/
def assemble (word : List UInt8) (directory : List Table) (layout : List Slot) (records : (q : Pool) → List q.Record)
    (selfHandle : Option UInt16) : Module where
  versionWord := UInt32.ofNat (LittleEndian.value word)
  directory := directory
  layout := layout
  identifiers := records .identifiers
  constants := records .constants
  addresses := records .addresses
  handles := records .moduleHandles
  selfHandle := selfHandle

section Assemble
variable {word contents : List UInt8} {directory : List Table} {placed : List Placement}
  {records : (q : Pool) → List q.Record} {selfHandle : Option UInt16}

theorem records_assemble (layout : List Slot) (q : Pool) :
    (assemble word directory layout records selfHandle).records q = records q := by
  cases q <;> rfl

theorem tables_assemble (h : ∀ q, ∀ p ∈ placed, p.kind = .pool q → slice contents p = (records q).flatMap q.encode) :
    (assemble word directory (placed.map (slotAt contents)) records selfHandle).tables =
      placed.map fun p => (p.kind, slice contents p) := by
  rw [Module.tables, assemble, List.map_map]
  refine List.map_congr_left fun p hp => Prod.ext (kind_slotAt contents p) ?_
  change Module.encodeSlot _ (slotAt contents p) = slice contents p
  unfold slotAt
  split
  · rename_i q hkind
    rw [Module.encodeSlot, Module.encodePool_eq, h q p hp hkind]
    exact congrArg _ (records_assemble _ q)
  · rfl

end Assemble

/-- What is in the format is read. -/
theorem exists_decode {bytes : List UInt8} (h : IsModule bytes) : ∃ m, Module.decode bytes = .ok m := by
  cases h with
  | @mk word count contents trailer version ps order entries hword hversion hsupported hcount hentries hkinds horder
      htiles hcontents htrailer =>
    obtain ⟨hfits, rfl⟩ := entries_iff.mp hentries
    obtain ⟨handle, hhandle, rfl⟩ := trailer_iff.mp htrailer
    obtain rfl := Uleb128.spells_iff.mp hcount
    choose records hrecords habsent using exists_records hkinds hfits hcontents
    have harranged := arranged_arrange hkinds 0
    generalize (Entry.arrange (Entry.locate 0 ps)).map (·.toPlacement) = placed at harranged
    have hplaced := harranged.tiles horder htiles
    have hmem {p : Placement} (hp : p ∈ placed) : p ∈ ps := harranged.1.mem_iff.mp hp
    -- The module takes its tables from where they stand in the order of reading, not in the order of the format.
    let m := assemble word (ps.map (·.kind)) (placed.map (slotAt contents)) records handle
    have htables : m.tables = placed.map fun p => (p.kind, slice contents p) :=
      tables_assemble fun q p hp hkind => (hrecords q p (hmem hp) hkind).2
    have hplacements : Module.placements 0 m.tables = placed := by
      refine (((Module.tiles_iff_placements ?_).mp hplaced).1).symm
      rw [htables, List.map_map]
      refine List.map_congr_left fun p hp => Prod.ext rfl (length_slice ?_).symm
      exact end_le_of_tiles hplaced hp
    have hbytes : m.contents = contents := by
      rw [Module.contents, htables, List.flatMap_map, flatMap_slice contents hplaced, List.drop_zero, Nat.sub_zero,
        List.take_length]
    have hmversion : m.version = version := by
      rw [Module.version, versionOf_eq, hversion]
      exact congrArg (· % 2 ^ 24) (toNat_ofNat_value hword)
    have hcomplete : m.Complete := by
      refine ⟨fun q hq => ?_, fun q hq => ?_, hmversion ▸ hhandle⟩
      · rw [records_assemble]
        refine habsent q fun hkind => hq (pool_mem_map_slotAt_iff.mpr ?_)
        obtain ⟨p, hp, hkind⟩ := List.mem_map.mp hkind
        exact ⟨p, harranged.1.mem_iff.mpr hp, hkind⟩
      · obtain ⟨p, hp, hkind⟩ := pool_mem_map_slotAt_iff.mp hq
        rw [records_assemble]
        exact (hrecords q p (hmem hp) hkind).1
    refine ⟨m, Module.decode_eq_ok_iff.mpr ⟨hmversion ▸ hsupported, hcomplete, ps,
      ⟨rfl, hkinds, hfits, hplacements ▸ harranged⟩, ?_⟩⟩
    have hencode : LittleEndian.encode 4 m.versionWord.toNat = word := encode_toNat_ofNat_value hword
    rw [Module.spell, Module.body, hbytes, hencode, ← List.flatMap_def]
    simp only [List.append_assoc]
    rfl

/-- Exactly the bytes of the format are read as a module. -/
theorem decode_ok_iff_isModule (bytes : List UInt8) : (∃ m, Module.decode bytes = .ok m) ↔ IsModule bytes :=
  ⟨fun ⟨_, h⟩ => isModule_of_decode h, exists_decode⟩

end Grammar

end Stencil
