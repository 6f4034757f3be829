import Stencil.Proofs.Contents

/-! Which bytes are read as which module: those of a directory that lists the module's tables where they stand,
    then the tables and the index of the module's own handle. -/

namespace Stencil

/-- As many tables as can be of different kinds. -/
theorem Table.length_le {kinds : List Table} (h : kinds.Nodup) : kinds.length ≤ 0xFF := by
  have hsub : kinds.Subperm all := List.subperm_of_subset h fun kind _ => mem_all kind
  exact Nat.le_trans hsub.length_le (by decide)

namespace Module

def contents (m : Module) : List UInt8 := m.tables.flatMap (·.2)

def trailer : Option UInt16 → List UInt8
  | some handle => Uleb128.encode handle.toNat
  | none => []

/-- The bytes of a module after its version word, if its directory has the entries `ps`. -/
def body (m : Module) (ps : List Placement) : List UInt8 :=
  Uleb128.encode ps.length ++ ps.flatMap Placement.encode ++ m.contents ++ trailer m.selfHandle

/-- The entries of a directory list the tables of a module in its order and as they are read. -/
structure Lists (m : Module) (ps : List Placement) : Prop where
  kinds : ps.map (·.kind) = m.directory
  nodup : m.directory.Nodup
  fits : ∀ p ∈ ps, p.Fits
  arranged : Arranged ps (placements 0 m.tables)

/-- A module holds what its tables hold and nothing else. -/
structure Complete (m : Module) : Prop where
  absent : ∀ p, .pool p ∉ m.layout → m.records p = []
  records : m.Fits m.layout
  selfHandle : m.selfHandle.isSome ↔ selfHandleVersion ≤ m.version

theorem reads_readSelfHandle (version : Nat) : Read.Reads (readSelfHandle version) fun _ handle bytes =>
    (handle.isSome ↔ selfHandleVersion ≤ version) ∧ bytes = trailer handle := by
  unfold readSelfHandle
  split
  · rename_i hwrites
    rw [map_eq_pure_bind]
    refine (Uleb128.readsBack_read16.map some).of_iff fun _ handle bytes => ?_
    constructor
    · intro h
      obtain ⟨h, ⟨-, rfl⟩, rfl⟩ := h
      exact ⟨iff_of_true rfl hwrites, rfl⟩
    · intro h'
      obtain ⟨hsome, rfl⟩ := h'
      obtain ⟨h, rfl⟩ := Option.isSome_iff_exists.mp (hsome.mpr hwrites)
      exact ⟨h, ⟨trivial, rfl⟩, rfl⟩
  · rename_i hwrites
    refine (Read.reads_pure (none : Option UInt16)).of_iff fun _ handle bytes => ?_
    constructor
    · intro h'
      obtain ⟨rfl, rfl⟩ := h'
      exact ⟨iff_of_false Bool.false_ne_true hwrites, rfl⟩
    · intro h'
      obtain ⟨hsome, rfl⟩ := h'
      cases handle with
      | none => exact ⟨rfl, rfl⟩
      | some h => exact absurd (hsome.mp rfl) hwrites

theorem tables_eq_map (m : Module) :
    m.tables.map (fun t => (t.1, t.2.length)) = m.layout.map fun s => (s.kind, (m.encodeSlot s).length) := by
  rw [tables, List.map_map]
  rfl

theorem contents_eq (m : Module) : m.contents = m.layout.flatMap m.encodeSlot := by
  rw [contents, tables, List.flatMap_map]

/-- Tables of the kinds and lengths that entries without gaps give stand where the entries say. -/
theorem map_layout_eq_iff {m : Module} {placed : List Placement} {total : Nat} (htiles : Tiles 0 placed total) :
    m.layout.map (fun s => (s.kind, (m.encodeSlot s).length)) = placed.map (fun p => (p.kind, p.length)) ↔
      placed = placements 0 m.tables ∧ total = m.contents.length := by
  rw [← tables_eq_map]
  constructor
  · intro h
    have hplaced := (tiles_iff_placements h.symm).mp htiles
    rw [Nat.zero_add] at hplaced
    exact hplaced
  · intro h
    obtain ⟨hplaced, -⟩ := h
    rw [hplaced, map_placements]

/-- Tables that follow one another from offset 0 on are read as the tables that stand there. -/
theorem reads_readTables {m₀ : Module} (hlayout : m₀.layout = []) {placed : List Entry} {total : Nat}
    (hnodup : (placed.map (·.kind)).Nodup) (htiles : Tiles 0 (placed.map (·.toPlacement)) total) :
    Read.Reads (m₀.readTables placed total) fun _ m bytes => m = m₀.fill m m.layout ∧ m.Fits m.layout ∧
      (placed.map (·.toPlacement) = placements 0 m.tables ∧ total = m.contents.length) ∧ bytes = m.contents := by
  have hplaced {m : Module} := map_layout_eq_iff (m := m) htiles
  rw [List.map_map] at hplaced
  have hread := (reads_foldlM_readTable m₀ placed hnodup).of_iff (W := fun _ m bytes => m = m₀.fill m m.layout ∧
      m.Fits m.layout ∧ (placed.map (·.toPlacement) = placements 0 m.tables ∧ total = m.contents.length) ∧
      bytes = m.contents) fun _ m bytes => by
    constructor
    · intro h'
      obtain ⟨slots, hfill, hfits, hkinds, rfl⟩ := h'
      obtain rfl : m.layout = slots := by
        rw [hfill]
        change m₀.layout ++ slots = slots
        rw [hlayout, List.nil_append]
      exact ⟨hfill, hfits, hplaced.mp hkinds, m.contents_eq.symm⟩
    · intro h'
      obtain ⟨hfill, hfits, hplacements, rfl⟩ := h'
      exact ⟨m.layout, hfill, hfits, hplaced.mpr hplacements, m.contents_eq⟩
  refine hread.of_enough (.tablesTooLong total) ?_
  rintro _ m _ ⟨-, -, ⟨-, htotal⟩, rfl⟩
  exact htotal.le

/-- A module is filled from nothing if the pools that no table fills are empty. -/
theorem eq_fill_iff {m m₀ : Module} (hlayout : m₀.layout = []) (hrecords : ∀ p, m₀.records p = []) :
    m = m₀.fill m m.layout ↔ m.versionWord = m₀.versionWord ∧ m.directory = m₀.directory ∧
      m.selfHandle = m₀.selfHandle ∧ ∀ p, .pool p ∉ m.layout → m.records p = [] := by
  constructor
  · intro h
    refine ⟨(congrArg versionWord h :), (congrArg directory h :), (congrArg selfHandle h :), fun p hp => ?_⟩
    rw [h, records_fill, if_neg hp, hrecords]
  · intro h'
    obtain ⟨hword, hdirectory, hself, habsent⟩ := h'
    refine ext_records hword hdirectory ?_ hself fun p => ?_
    · change m.layout = m₀.layout ++ m.layout
      rw [hlayout, List.nil_append]
    · rw [records_fill]
      split
      · rfl
      · rw [habsent p ‹_›, hrecords]

/-- What follows the tables is the index of the module's own handle. -/
theorem readsAll_selfHandle (m₁ : Module) (version : Nat) : Read.ReadsAll (do
      let selfHandle ← readSelfHandle version
      Read.finish "module"
      return { m₁ with selfHandle })
    fun _ m bytes => m = { m₁ with selfHandle := m.selfHandle } ∧
      (m.selfHandle.isSome ↔ selfHandleVersion ≤ version) ∧ bytes = trailer m.selfHandle := by
  refine ((reads_readSelfHandle version).bind_all fun _ selfHandle _ _ =>
    Read.readsAll_finish "module" { m₁ with selfHandle }).of_iff fun _ m bytes => ?_
  constructor
  · intro h
    obtain ⟨handle, _, _, ⟨hsome, rfl⟩, ⟨rfl, rfl⟩, rfl⟩ := h
    exact ⟨rfl, hsome, List.append_nil _⟩
  · intro h
    obtain ⟨hm, hsome, rfl⟩ := h
    exact ⟨m.selfHandle, _, [], ⟨hsome, rfl⟩, ⟨hm, rfl⟩, (List.append_nil _).symm⟩

/-- The module to which the tables of a directory are added. -/
def blank (word : UInt32) (es : List Entry) : Module :=
  { versionWord := word, directory := es.map (·.kind), layout := [], identifiers := [], constants := [],
    addresses := [], handles := [], selfHandle := none }

theorem records_blank (word : UInt32) (es : List Entry) (p : Pool) : (blank word es).records p = [] := by
  cases p <;> rfl

theorem readsAll_readListed (word : UInt32) {start : Nat} {ps : List Placement} (hnodup : (ps.map (·.kind)).Nodup) :
    Read.ReadsAll (readListed word (Entry.locate start ps)) fun _ m bytes =>
      (m.versionWord = word ∧ m.directory = ps.map (·.kind)) ∧ m.Complete ∧ Arranged ps (placements 0 m.tables) ∧
      bytes = m.contents ++ trailer m.selfHandle := by
  have harranged := arranged_arrange hnodup start
  have hplaced := Entry.nodup_kind_arrange hnodup start
  have hlayout : (blank word (Entry.locate start ps)).layout = [] := rfl
  have hrecords := records_blank word (Entry.locate start ps)
  have hread := (Entry.reads_checkOffsets 0 (Entry.arrange (Entry.locate start ps))).bind_all
    fun _ total _ htiles => (reads_readTables hlayout hplaced htiles.1).bind_all
      fun _ m₁ _ _ => m₁.readsAll_selfHandle (versionOf word)
  refine hread.of_iff fun _ m bytes => ?_
  constructor
  · intro h
    obtain ⟨total, _, _, ⟨htiles, rfl⟩, ⟨m₁, _, _, ⟨hfill, hfits, ⟨hplacements, -⟩, rfl⟩, ⟨hm, hsome, rfl⟩,
      rfl⟩, rfl⟩ := h
    obtain ⟨hword, hdirectory, -, habsent⟩ := (eq_fill_iff hlayout hrecords).mp hfill
    obtain ⟨handle, rfl⟩ : ∃ handle, m = { m₁ with selfHandle := handle } := ⟨_, hm⟩
    rw [hplacements] at harranged
    refine ⟨⟨hword, hdirectory.trans (Entry.map_kind_locate start ps)⟩, ⟨habsent, hfits, ?_⟩, harranged, rfl⟩
    rw [version, hword]
    exact hsome
  · intro h
    obtain ⟨⟨rfl, hdirectory⟩, hcomplete, hplacements, rfl⟩ := h
    -- Two arrangements of one directory are the same, so the tables are read where they were written.
    have hplacements := harranged.eq hplacements
    have htiles := (tiles_iff_placements (map_placements 0 m.tables)).mpr ⟨rfl, rfl⟩
    rw [← hplacements] at htiles
    refine ⟨_, [], _, ⟨htiles, rfl⟩, ⟨{ m with selfHandle := none }, m.contents, _, ⟨?_, hcomplete.records,
      ⟨hplacements, Nat.zero_add _⟩, rfl⟩, ⟨rfl, hcomplete.selfHandle, rfl⟩, rfl⟩, rfl⟩
    refine (eq_fill_iff hlayout hrecords).mpr ?_
    exact ⟨rfl, hdirectory.trans (Entry.map_kind_locate start ps).symm, rfl, hcomplete.absent⟩

theorem readsAll_readBody (word : UInt32) : Read.ReadsAll (readBody word) fun _ m bytes =>
    m.versionWord = word ∧ m.Complete ∧ ∃ ps, m.Lists ps ∧ bytes = m.body ps := by
  refine ((Uleb128.readsBack_read 0xFF).bind_all fun _ count _ _ => (Entry.reads_readAll [] count).bind_all
    (W := fun entries _ (m : Module) bytes => (m.versionWord = word ∧ m.directory = entries.map (·.kind)) ∧ m.Complete ∧
      Arranged (entries.map (·.toPlacement)) (placements 0 m.tables) ∧ bytes = m.contents ++ trailer m.selfHandle)
    fun start entries _ h => ?_).of_iff fun _ m bytes => ?_
  · obtain ⟨ps, rfl, -, hnodup, -, -⟩ := h
    rw [Entry.map_kind_locate, Entry.map_toPlacement_locate]
    exact readsAll_readListed word hnodup
  · constructor
    · intro h'
      obtain ⟨count, _, _, ⟨-, rfl⟩, ⟨_, _, _, ⟨ps, rfl, rfl, hnodup, hps, rfl⟩, ⟨⟨hword, hdirectory⟩,
        hcomplete, harranged, rfl⟩, rfl⟩, rfl⟩ := h'
      rw [Entry.map_kind_locate] at hdirectory
      rw [Entry.map_toPlacement_locate] at harranged
      refine ⟨hword, hcomplete, ps, ⟨hdirectory.symm, hdirectory ▸ hnodup, fun p hp => (hps p hp).2, harranged⟩, ?_⟩
      simp only [body, List.append_assoc]
    · intro h'
      obtain ⟨hword, hcomplete, ps, ⟨hkinds, hnodup, hfits, harranged⟩, rfl⟩ := h'
      have hcount : ps.length ≤ 0xFF := by
        rw [← hkinds] at hnodup
        simpa using Table.length_le hnodup
      rw [← hkinds] at hnodup
      refine ⟨ps.length, _, _, ⟨⟨hcount, by omega⟩, rfl⟩, ⟨_, _, _, ⟨ps, rfl, rfl, hnodup, fun p hp => ?_, rfl⟩,
        ⟨⟨hword, ?_⟩, hcomplete, ?_, rfl⟩, rfl⟩, ?_⟩
      · exact ⟨List.not_mem_nil, hfits p hp⟩
      · rw [Entry.map_kind_locate, hkinds]
      · rw [Entry.map_toPlacement_locate]
        exact harranged
      · simp only [body, List.append_assoc]

theorem reads_readVersionWord : Read.Reads readVersionWord fun _ word bytes =>
    bytes = magic ++ LittleEndian.encode 4 word.toNat := by
  refine Read.Reads.after_offset fun start => ?_
  have hword (mark : List UInt8) : Read.Reads (if mark = magic then Read.word32 else Read.failAt start .badMagic)
      fun _ word rest => mark = magic ∧ rest = LittleEndian.encode 4 word.toNat := by
    split
    · rename_i hmark
      exact Read.readsBack_word32.of_iff fun _ word rest => ⟨fun h => ⟨hmark, h.2⟩, fun h => ⟨trivial, h.2⟩⟩
    · rename_i hmark
      exact Read.reads_failAt start _ fun _ word rest h => hmark h.1
  refine ((Read.reads_bytes magic.length).bind hword).of_iff fun _ word bytes => ?_
  constructor
  · intro h'
    obtain ⟨_, _, _, ⟨-, rfl⟩, ⟨rfl, rfl⟩, rfl⟩ := h'
    rfl
  · rintro rfl
    exact ⟨magic, magic, _, ⟨rfl, rfl⟩, ⟨rfl, rfl⟩, rfl⟩

/-- The bytes of a module whose directory has the entries `ps`. -/
def spell (m : Module) (ps : List Placement) : List UInt8 :=
  magic ++ LittleEndian.encode 4 m.versionWord.toNat ++ m.body ps

/-- What is read as a module is a version word that is supported and a body after it. -/
theorem decode_eq_ok_iff_steps {bytes : List UInt8} {m : Module} : decode bytes = .ok m ↔
    ∃ word r, readVersionWord { rest := bytes } = .ok word r ∧ (0 < versionOf word ∧ versionOf word ≤ maxVersion) ∧
      ∃ r', readBody word r = .ok m r' := by
  unfold decode
  constructor
  · intro h
    split at h
    · cases h
    · rename_i word r hword
      dsimp only at h
      split at h
      · cases h
      · rename_i hversion
        exact ⟨word, r, hword, by omega, Read.value_eq_ok_iff.mp (Read.mapError_eq_ok_iff.mp h)⟩
  · intro h
    obtain ⟨word, r, hword, hversion, hbody⟩ := h
    rw [hword]
    dsimp only
    rw [if_neg (by omega), Read.value_eq_ok_iff.mpr hbody]
    rfl

/-- What is not read as a module is malformed, or begins with a version word that is not supported. -/
theorem malformed_or_unsupported {bytes : List UInt8} {error : Error} (h : decode bytes = .error error) :
    (∃ fault, error = .malformed fault) ∨ ∃ word r, readVersionWord { rest := bytes } = .ok word r ∧
      ¬ (0 < versionOf word ∧ versionOf word ≤ maxVersion) := by
  unfold decode at h
  cases hword : readVersionWord { rest := bytes } with
  | error fault r =>
    rw [hword] at h
    exact Or.inl ⟨fault, (Except.error.inj h).symm⟩
  | ok word r =>
    by_cases hversion : 0 < versionOf word ∧ versionOf word ≤ maxVersion
    · simp only [hword, if_neg (show ¬ (versionOf word = 0 ∨ maxVersion < versionOf word) by omega)] at h
      cases hbody : (readBody word).value r with
      | ok m => simp [hbody, Except.mapError] at h
      | error fault =>
        rw [hbody] at h
        exact Or.inl ⟨fault, (Except.error.inj h).symm⟩
    · exact Or.inr ⟨word, r, rfl, hversion⟩

/-- Bytes are read as a module exactly if they spell it with a directory that lists its tables. -/
theorem decode_eq_ok_iff {bytes : List UInt8} {m : Module} : decode bytes = .ok m ↔
    (0 < m.version ∧ m.version ≤ maxVersion) ∧ m.Complete ∧ ∃ ps, m.Lists ps ∧ bytes = m.spell ps := by
  rw [decode_eq_ok_iff_steps]
  constructor
  · intro h
    obtain ⟨word, r, hword, hversion, hbody⟩ := h
    obtain ⟨_, rfl, hrest, -⟩ := (reads_readVersionWord _ _ _).mp hword
    obtain ⟨rfl, hcomplete, ps, hps, hr⟩ := (readsAll_readBody word r m).mp hbody
    dsimp only at hrest
    exact ⟨hversion, hcomplete, ps, hps, by rw [hrest, hr, spell]⟩
  · intro h'
    obtain ⟨hversion, hcomplete, ps, hps, rfl⟩ := h'
    refine ⟨m.versionWord, ⟨m.body ps, 8⟩, (reads_readVersionWord _ _ _).mpr ⟨_, rfl, rfl, ?_⟩, hversion, ?_⟩
    · rw [List.length_append, LittleEndian.length_encode]
      rfl
    · exact (readsAll_readBody m.versionWord _ m).mpr ⟨rfl, hcomplete, ps, hps, rfl⟩

end Module

end Stencil
