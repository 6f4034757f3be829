import Stencil.Proofs.Decoding

/-! Reading and writing undo each other. What is read from bytes is written as those very bytes; and what is
    written for a well-formed module is read as that module. -/

namespace Stencil

namespace Module

theorem length_le_contents {m : Module} {t : Table × List UInt8} (ht : t ∈ m.tables) :
    t.2.length ≤ m.contents.length := length_le_flatMap ht

theorem encode_eq {m : Module} (h : m.contents.length ≤ maxLength) : m.encode = do
      let entries ← m.directory.mapM (findPlacement (placements 0 m.tables))
      return magic ++ LittleEndian.encode 4 m.versionWord.toNat ++ Uleb128.encode m.directory.length ++
        entries.flatMap Placement.encode ++ m.contents ++ trailer m.selfHandle := by
  have hfind : m.tables.find? (fun t => decide (maxLength < t.2.length)) = none := by
    rw [List.find?_eq_none]
    intro t ht hlt
    have := length_le_contents ht
    rw [decide_eq_true_eq] at hlt
    omega
  unfold contents at h
  unfold encode
  dsimp only
  rw [hfind]
  dsimp only
  rw [if_neg (by omega)]
  rfl

theorem encode_ne_ok {m : Module} (h : maxLength < m.contents.length) (bytes : List UInt8) :
    m.encode ≠ .ok bytes := by
  unfold contents at h
  unfold encode
  dsimp only
  cases m.tables.find? (fun t => decide (maxLength < t.2.length)) with
  | some t =>
    intro hok
    cases hok
  | none =>
    dsimp only
    rw [if_pos h]
    intro hok
    cases hok

/-- A module whose directory lists its tables is written with the entries that say where they stand. -/
theorem encode_eq_ok_iff {m : Module} {bytes : List UInt8} (hnodup : m.directory.Nodup)
    (hperm : m.directory.Perm (m.tables.map (·.1))) : m.encode = .ok bytes ↔ m.contents.length ≤ maxLength ∧
      ∃ ps : List Placement, (ps.map (·.kind) = m.directory ∧ ∀ p ∈ ps, p ∈ placements 0 m.tables) ∧
        bytes = m.spell ps := by
  have hplaced : ((placements 0 m.tables).map (·.kind)).Nodup := by
    rw [map_kind_placements]
    exact hperm.nodup_iff.mp hnodup
  have hspell {ps : List Placement} (hkinds : ps.map (·.kind) = m.directory) : m.spell ps =
      magic ++ LittleEndian.encode 4 m.versionWord.toNat ++ Uleb128.encode m.directory.length ++
        ps.flatMap Placement.encode ++ m.contents ++ trailer m.selfHandle := by
    rw [← hkinds, List.length_map]
    simp only [spell, body, List.append_assoc]
  constructor
  · intro hok
    have hlen : m.contents.length ≤ maxLength := Nat.le_of_not_lt fun h => encode_ne_ok h bytes hok
    rw [encode_eq hlen] at hok
    cases hentries : m.directory.mapM (findPlacement (placements 0 m.tables)) with
    | error e => simp [hentries, bind, Except.bind] at hok
    | ok ps =>
      simp only [hentries, bind, Except.bind, pure, Except.pure, Except.ok.injEq] at hok
      have hps := (mapM_findPlacement_eq_ok_iff hplaced).mp hentries
      exact ⟨hlen, ps, hps, by rw [hspell hps.1, hok]⟩
  · intro h'
    obtain ⟨hlen, ps, hps, rfl⟩ := h'
    have hentries := (mapM_findPlacement_eq_ok_iff hplaced).mpr hps
    rw [encode_eq hlen, hspell hps.1]
    simp only [hentries, bind, Except.bind, pure, Except.pure]

theorem Lists.perm {m : Module} {ps : List Placement} (h : m.Lists ps) :
    m.directory.Perm (m.tables.map (·.1)) := by
  rw [← h.kinds, ← map_kind_placements 0]
  exact (h.arranged.1.map (·.kind)).symm

/-- Bytes that are read as a module are the bytes that are written for it. -/
theorem encode_of_decode {bytes : List UInt8} {m : Module} (hlen : bytes.length < 2 ^ 32)
    (h : decode bytes = .ok m) : m.encode = .ok bytes := by
  obtain ⟨-, -, ps, hps, rfl⟩ := decode_eq_ok_iff.mp h
  have hcontents : m.contents.length ≤ maxLength := by
    simp only [spell, body, List.length_append] at hlen
    unfold maxLength
    omega
  refine (encode_eq_ok_iff hps.nodup hps.perm).mpr ⟨hcontents, ps, ⟨hps.kinds, fun p hp => ?_⟩, rfl⟩
  exact hps.arranged.1.mem_iff.mpr hp

/-- A module of version 4 with two empty tables before its pools, which its directory lists in another order. -/
def sample : Module where
  versionWord := 0x0A000004
  directory := [.pool .constants, .carried .metadata, .pool .identifiers, .carried .friendDecls]
  layout := [.carried .metadata [], .carried .friendDecls [], .pool .identifiers, .pool .constants]
  identifiers := ["papa", "PAPA"]
  constants := [⟨.uint .w8, [5]⟩, ⟨.vector (.uint .w8), [1, 0x61]⟩]
  addresses := []
  handles := []
  selfHandle := none

/-- The bytes of the sample: its head, its four entries and its tables. -/
def sampleBytes : List UInt8 :=
  [0xA1, 0x1C, 0xEB, 0x0B, 4, 0, 0, 0x0A, 4] ++ [0x06, 10, 8, 0x10, 0, 0, 0x07, 0, 10, 0x0F, 0, 0] ++
    [4, 0x70, 0x61, 0x70, 0x61, 4, 0x50, 0x41, 0x50, 0x41] ++ [2, 1, 5, 10, 2, 2, 1, 0x61]

theorem encode_sample : sampleBytes.length < 2 ^ 32 ∧ decode sampleBytes = .ok sample ∧
    sample.encode = .ok sampleBytes :=
  have hdecode : decode sampleBytes = .ok sample := by decide +kernel
  ⟨by decide, hdecode, encode_of_decode (by decide) hdecode⟩

/-- What holds of every module that can be written and read again, whatever its pools hold. -/
structure WellFormed (m : Module) : Prop where
  version : 0 < m.version ∧ m.version ≤ maxVersion
  nodup : m.directory.Nodup
  perm : m.directory.Perm (m.layout.map Slot.kind)
  /-- Empty tables next to each other stand in the order of the directory. -/
  ordered : m.tables.IsChain fun a b => a.2 = [] → b.2 = [] → m.directory.idxOf a.1 < m.directory.idxOf b.1
  absent : ∀ p, .pool p ∉ m.layout → m.records p = []
  identifiers : ∀ name ∈ m.identifiers, Utf8.size name ≤ maxIdentifierLength
  constants : ∀ c ∈ m.constants, c.type.depth ≤ maxTypeDepth ∧ c.type.Narrow
  selfHandle : m.selfHandle.isSome ↔ selfHandleVersion ≤ m.version

theorem map_fst_tables (m : Module) : m.tables.map (·.1) = m.layout.map Slot.kind := by
  rw [tables, List.map_map]
  rfl

theorem wellFormed_of_decode {bytes : List UInt8} {m : Module} (h : decode bytes = .ok m) : m.WellFormed := by
  obtain ⟨hversion, hcomplete, ps, hps, -⟩ := decode_eq_ok_iff.mp h
  have hordered := (pairwise_placements_iff 0).mp hps.arranged.2
  rw [hps.kinds] at hordered
  have hrecords (p : Pool) : ∀ a ∈ m.records p, p.Fits a := by
    by_cases hp : .pool p ∈ m.layout
    · exact hcomplete.records p hp
    · rw [hcomplete.absent p hp]
      simp
  exact {
    version := hversion
    nodup := hps.nodup
    perm := m.map_fst_tables ▸ hps.perm
    ordered := hordered
    absent := hcomplete.absent
    identifiers := hrecords .identifiers
    constants := fun c hc => (hrecords .constants c hc).1
    selfHandle := hcomplete.selfHandle }

theorem length_data_le {m : Module} (h : .pool .constants ∈ m.layout) {c : Constant} (hc : c ∈ m.constants) :
    c.data.length ≤ m.contents.length := by
  have htable : ((Slot.pool .constants).kind, m.encodeSlot (.pool .constants)) ∈ m.tables := List.mem_map_of_mem h
  have hpool : c.encode.length ≤ (m.constants.flatMap Constant.encode).length := length_le_flatMap hc
  exact c.length_data_le.trans (hpool.trans (length_le_contents htable))

theorem WellFormed.fits {m : Module} (h : m.WellFormed) (hlen : m.contents.length ≤ maxLength) :
    m.Fits m.layout := by
  intro p hp
  cases p with
  | constants => exact fun c hc => ⟨h.constants c hc, (length_data_le hp hc).trans hlen⟩
  | identifiers => exact h.identifiers
  | _ => exact fun _ _ => trivial

/-- A well-formed module is written, and read again from what is written, unless its tables are too long. -/
theorem WellFormed.decode_encode {m : Module} (h : m.WellFormed) (hlen : m.contents.length ≤ maxLength) :
    ∃ bytes, m.encode = .ok bytes ∧ decode bytes = .ok m := by
  have hperm : m.directory.Perm (m.tables.map (·.1)) := m.map_fst_tables ▸ h.perm
  have hlisted : m.directory.Perm ((placements 0 m.tables).map (·.kind)) := by
    rw [map_kind_placements]
    exact hperm
  obtain ⟨ps, hkinds, hmem⟩ := exists_entries hlisted.subset
  have hentries : ps.Perm (placements 0 m.tables) :=
    perm_of_entries (hkinds ▸ h.nodup) (hkinds ▸ hlisted) hmem
  refine ⟨m.spell ps, (encode_eq_ok_iff h.nodup hperm).mpr ⟨hlen, ps, ⟨hkinds, hmem⟩, rfl⟩, ?_⟩
  have hfits : ∀ p ∈ ps, p.Fits := by
    intro p hp
    have hend := end_le_of_mem_placements (hmem p hp)
    unfold contents at hlen
    constructor <;> omega
  have harranged : Arranged ps (placements 0 m.tables) := by
    refine ⟨hentries.symm, (pairwise_placements_iff 0).mpr ?_⟩
    rw [hkinds]
    exact h.ordered
  exact decode_eq_ok_iff.mpr ⟨h.version, ⟨h.absent, h.fits hlen, h.selfHandle⟩, ps,
    ⟨hkinds, h.nodup, hfits, harranged⟩, rfl⟩

end Module

end Stencil
