import Stencil.Proofs.Format
import Stencil.Proofs.Places

/-! Which table is at fault. When the directory and the offsets in it are in order, the tables are read one after the
    other, and the first of them whose contents are not of the format is the one in which the fault shows. -/

namespace Stencil

namespace Grammar

/-- Bytes that are in order up to the contents of their tables: `ps` are the entries of their directory, and `contents`,
    which begin at `start`, hold the tables. -/
inductive HasTables (ps : List Placement) (start : Nat) (contents : List UInt8) : Language
  | mk {word count rest : List UInt8} {version : Nat} {order : List Placement} {entries : List (List UInt8)}
    (hword : word.length = 4) (hversion : version = LittleEndian.value word % 2 ^ 24)
    (hsupported : 1 ≤ version ∧ version ≤ 7) (hcount : Uleb128.Spells ps.length count)
    (hentries : List.Forall₂ Entry ps entries) (hkinds : (ps.map (·.kind)).Nodup)
    (horder : order.Perm ps) (htiles : Tiles 0 order contents.length)
    (hstart : start = 8 + count.length + entries.flatten.length) :
    HasTables ps start contents ([0xA1, 0x1C, 0xEB, 0x0B] ++ word ++ count ++ entries.flatten ++ contents ++ rest)

/-- The bytes where a table stands are contents of a table of its kind. -/
def Sound (contents : List UInt8) (p : Placement) : Prop := Contents p.kind (slice contents p)

/-- Of the tables that are not sound, `p` stands before all others. -/
structure FirstBroken (ps : List Placement) (contents : List UInt8) (p : Placement) : Prop where
  mem : p ∈ ps
  broken : ¬Sound contents p
  first : ∀ q ∈ ps, ¬Sound contents q → q ≠ p → p.offset < q.offset

theorem sound_of_length_eq_zero (contents : List UInt8) {p : Placement} (h : p.length = 0) : Sound contents p := by
  unfold Sound slice
  rw [h, List.take_zero]
  cases p.kind with
  | carried table => trivial
  | pool q =>
    cases q with
    | addresses => rfl
    | moduleHandles | constants | identifiers => exact ⟨0, .none⟩

end Grammar

namespace Module
open Grammar

/-! ### Up to the contents -/

/-- Reading has come to the contents of the tables: `es` are the entries of the directory, the tables take `total`
    bytes, and `r` stands before them. -/
structure Reaches (bytes : List UInt8) (word : UInt32) (es : List Entry) (total : Nat) (r : Reader) : Prop where
  steps : ∃ r₁ count r₂, readVersionWord { rest := bytes } = .ok word r₁ ∧ Uleb128.read 0xFF r₁ = .ok count r₂ ∧
    Entry.readAll [] count r₂ = .ok es r
  supported : 0 < versionOf word ∧ versionOf word ≤ maxVersion
  offsets : Entry.checkOffsets 0 (Entry.arrange es) r = .ok total r
  enough : total ≤ r.rest.length

/-- What is left to read behind the directory. -/
def readContents (word : UInt32) (es : List Entry) : Read Module := do
  let m ← (Entry.arrange es).foldlM readTable (blank word es)
  let selfHandle ← readSelfHandle (versionOf word)
  Read.finish "module"
  return { m with selfHandle }

theorem decode_of_reaches {bytes : List UInt8} {word : UInt32} {es : List Entry} {total : Nat} {r : Reader}
    (h : Reaches bytes word es total r) : decode bytes = ((readContents word es).value r).mapError .malformed := by
  obtain ⟨⟨r₁, count, r₂, hword, hcount, hes⟩, hsupported, hoffsets, henough⟩ := h
  have hbody : readBody word r₁ = readContents word es r := by
    unfold readBody
    rw [Read.bind_of_ok hcount, Read.bind_of_ok hes]
    unfold readListed
    dsimp only
    rw [Read.bind_of_ok hoffsets]
    have htables : readTables (blank word es) (Entry.arrange es) total r =
        (Entry.arrange es).foldlM readTable (blank word es) r := by
      change (if r.rest.length < total then Read.fail _ else _) r = _
      rw [if_neg (by omega)]
    exact Read.bind_congr htables _
  unfold decode
  rw [hword]
  dsimp only
  rw [if_neg (by omega)]
  unfold Read.value
  rw [hbody]

section Tables
variable {ps : List Placement} {start : Nat} {contents bytes : List UInt8}

theorem exists_reaches (h : HasTables ps start contents bytes) : ∃ word es rest,
    Reaches bytes word es contents.length ⟨contents ++ rest, start⟩ ∧ es.map (·.toPlacement) = ps := by
  cases h with
  | @mk word count rest version order entries hword hversion hsupported hcount hentries hkinds horder htiles hstart =>
    obtain ⟨hfits, rfl⟩ := entries_iff.mp hentries
    obtain rfl := Uleb128.spells_iff.mp hcount
    rw [← List.flatMap_def] at hstart ⊢
    have hlen : ps.length ≤ 0xFF := by simpa using Table.length_le hkinds
    let body := ps.flatMap Placement.encode ++ (contents ++ rest)
    let place := 8 + (Uleb128.encode ps.length).length
    have hmark : readVersionWord ⟨[0xA1, 0x1C, 0xEB, 0x0B] ++ word ++ Uleb128.encode ps.length ++
        ps.flatMap Placement.encode ++ contents ++ rest, 0⟩ =
          .ok (UInt32.ofNat (LittleEndian.value word)) ⟨Uleb128.encode ps.length ++ body, 8⟩ := by
      refine (reads_readVersionWord _ _ _).mpr ⟨_, rfl, ?_⟩
      rw [encode_toNat_ofNat_value hword]
      refine ⟨by simp only [body, List.append_assoc]; rfl, ?_⟩
      rw [List.length_append, hword]
      rfl
    have hlength : Uleb128.read 0xFF ⟨Uleb128.encode ps.length ++ body, 8⟩ = .ok ps.length ⟨body, place⟩ :=
      (Uleb128.readsBack_read 0xFF _ _ _).mpr ⟨_, ⟨⟨hlen, by omega⟩, rfl⟩, rfl, rfl⟩
    have hes : Entry.readAll [] ps.length ⟨body, place⟩ = .ok (Entry.locate place ps) ⟨contents ++ rest, start⟩ :=
      (Entry.reads_readAll [] _ _ _ _).mpr ⟨_, ⟨ps, rfl, rfl, hkinds, fun p hp =>
        ⟨List.not_mem_nil, hfits p hp⟩, rfl⟩, rfl, hstart⟩
    refine ⟨_, Entry.locate place ps, rest, ⟨⟨_, _, _, hmark, hlength, hes⟩, ?_, ?_, ?_⟩,
      Entry.map_toPlacement_locate place ps⟩
    · rw [versionOf_eq, toNat_ofNat_value hword, ← hversion]
      exact hsupported
    · have hplaced := (arranged_arrange hkinds place).tiles horder htiles
      exact (Entry.reads_checkOffsets 0 _ _ _ _).mpr ⟨[], ⟨hplaced, rfl⟩, rfl, rfl⟩
    · exact List.length_append ▸ Nat.le_add_right _ _

theorem Reaches.hasTables {word : UInt32} {es : List Entry} {rest : List UInt8}
    (h : Reaches bytes word es contents.length ⟨contents ++ rest, start⟩) :
    HasTables (es.map (·.toPlacement)) start contents bytes := by
  obtain ⟨⟨r₁, count, r₂, hword, hcount, hes⟩, hsupported, hoffsets, -⟩ := h
  obtain ⟨_, rfl, hrest₁, hoffset₁⟩ := (reads_readVersionWord _ _ _).mp hword
  obtain ⟨_, ⟨-, rfl⟩, hrest₂, hoffset₂⟩ := (Uleb128.readsBack_read 0xFF _ _ _).mp hcount
  obtain ⟨_, ⟨ps, rfl, rfl, hkinds, hps, rfl⟩, hrest₃, hoffset₃⟩ := (Entry.reads_readAll [] _ _ _ _).mp hes
  obtain ⟨_, ⟨htiles, rfl⟩, -⟩ := (Entry.reads_checkOffsets 0 _ _ _ _).mp hoffsets
  rw [Entry.map_toPlacement_locate]
  have hversion : versionOf word = LittleEndian.value (LittleEndian.encode 4 word.toNat) % 2 ^ 24 := by
    rw [LittleEndian.value_encode word.toNat_lt, versionOf_eq]
  dsimp only at hrest₁ hrest₃ hoffset₁ hoffset₃
  have hstart : start = 8 + (Uleb128.encode ps.length).length + (ps.map Placement.encode).flatten.length := by
    rw [← List.flatMap_def, hoffset₃, hoffset₂, hoffset₁, List.length_append, LittleEndian.length_encode]
    rfl
  have htables : HasTables ps start contents (_ ++ rest) := .mk (LittleEndian.length_encode 4 word.toNat) hversion
    hsupported (Uleb128.spells_iff.mpr rfl) (entries_iff.mpr ⟨fun p hp => (hps p hp).2, rfl⟩) hkinds
    (arranged_arrange hkinds r₂.offset).1 htiles hstart
  rw [← List.flatMap_def] at htables
  rw [hrest₁, hrest₂, hrest₃]
  simpa only [magic, List.append_assoc] using htables

/-- The checks before the contents pass exactly for the bytes that have tables. -/
theorem hasTables_iff : HasTables ps start contents bytes ↔ ∃ word es rest,
    Reaches bytes word es contents.length ⟨contents ++ rest, start⟩ ∧ es.map (·.toPlacement) = ps := by
  constructor
  · exact exists_reaches
  · rintro ⟨word, es, rest, hreaches, rfl⟩
    exact hreaches.hasTables

end Tables

/-! ### One table, and all of them -/

/-- Records are read from the contents of a pool exactly if they are of the format. -/
theorem readPool_eq_ok_iff (m : Module) (q : Pool) {contents : List UInt8} (hlen : contents.length ≤ maxLength)
    (start : Nat) : (∃ m' r', m.readPool q ⟨contents, start⟩ = .ok m' r') ↔ Contents (.pool q) contents := by
  rw [contents_iff hlen]
  constructor
  · rintro ⟨m', hread⟩
    obtain ⟨as, has, -⟩ := (m.readsAll_readPool q _ m').mp hread
    exact ⟨as, has⟩
  · rintro ⟨as, has⟩
    exact ⟨_, (m.readsAll_readPool q ⟨contents, start⟩ _).mpr ⟨as, has, rfl⟩⟩

/-- A table whose bytes are there is read if its contents are of the format. If they are not, the fault shows at one of
    these bytes or right after them. -/
theorem readTable_step (m : Module) {e : Entry} (hfits : e.length ≤ maxLength) {r : Reader}
    (henough : e.length ≤ r.rest.length) :
    (Contents e.kind (r.rest.take e.length) ∧
      ∃ m', m.readTable e r = .ok m' ⟨r.rest.drop e.length, r.offset + e.length⟩) ∨
    ¬Contents e.kind (r.rest.take e.length) ∧ ∃ fault r', m.readTable e r = .error fault r' ∧
      r.offset ≤ fault.offset ∧ fault.offset ≤ r.offset + e.length := by
  obtain ⟨⟨kind, offset, length⟩, place⟩ := e
  dsimp only at hfits henough ⊢
  have hlen : (r.rest.take length).length = length := List.length_take_of_le henough
  have hbytes : Read.bytes length r = .ok (r.rest.take length) ⟨r.rest.drop length, r.offset + length⟩ := by
    unfold Read.bytes
    rw [if_pos hlen]
  unfold readTable
  rw [Read.bind_of_ok (rfl : Read.offset r = .ok r.offset r), Read.bind_of_ok hbytes]
  cases kind with
  | carried table => exact Or.inl ⟨trivial, _, rfl⟩
  | pool q =>
    have hread := m.readPool_eq_ok_iff q (hlen.trans_le hfits) r.offset
    have hstays : Read.Stays r.offset (r.offset + length) (m.readPool q) fun _ => True := m.stays_readPool q
    cases hresult : m.readPool q ⟨r.rest.take length, r.offset⟩ with
    | ok m' r' =>
      exact Or.inl ⟨hread.mp ⟨m', r', hresult⟩, _, Read.bind_of_ok (Read.inside_of_ok hresult _) _⟩
    | error fault r' =>
      have hpart : Reader.Between r.offset (r.offset + length) ⟨r.rest.take length, r.offset⟩ :=
        ⟨Nat.le_refl _, by rw [hlen]⟩
      refine Or.inr ⟨fun hcontents => ?_, fault, _, Read.bind_of_error (Read.inside_of_error hresult _) _,
        hstays.error_offset hpart hresult⟩
      obtain ⟨m', r'', hok⟩ := hread.mpr hcontents
      cases hresult.symm.trans hok

/-- Tables that follow one another are read one after the other until one of them is not sound, and the fault shows in
    that table. -/
theorem readTables_run (m : Module) {es : List Entry} (hfits : ∀ e ∈ es, e.length ≤ maxLength) {contents : List UInt8}
    {place : Nat} (htiles : Tiles place (es.map (·.toPlacement)) contents.length) (start : Nat) (rest : List UInt8) :
    ((∀ e ∈ es, Sound contents e.toPlacement) ∧ ∃ m', es.foldlM readTable m ⟨contents.drop place ++ rest, start + place⟩ =
      .ok m' ⟨rest, start + contents.length⟩) ∨
    ∃ earlier e later fault r', es = earlier ++ e :: later ∧ (∀ e' ∈ earlier, Sound contents e'.toPlacement) ∧
      ¬Sound contents e.toPlacement ∧
      es.foldlM readTable m ⟨contents.drop place ++ rest, start + place⟩ = .error fault r' ∧
      start + e.offset ≤ fault.offset ∧ fault.offset ≤ start + (e.offset + e.length) := by
  induction es generalizing m place with
  | nil =>
    cases htiles
    refine Or.inl ⟨by simp, m, ?_⟩
    rw [List.drop_length]
    rfl
  | cons e es ih =>
    obtain ⟨hfit, hfits⟩ := List.forall_mem_cons.mp hfits
    obtain ⟨hoffset, htiles⟩ := tiles_cons_iff.mp htiles
    obtain rfl : e.offset = place := hoffset
    dsimp only at htiles
    have hle := htiles.le
    have hdrop : e.length ≤ (contents.drop e.offset).length := by
      rw [List.length_drop]
      omega
    have hstep := m.readTable_step hfit (r := ⟨contents.drop e.offset ++ rest, start + e.offset⟩)
      (by rw [List.length_append]; omega)
    dsimp only at hstep
    rw [List.take_append_of_le_length hdrop, List.drop_append_of_le_length hdrop, List.drop_drop, Nat.add_assoc] at hstep
    rw [List.foldlM_cons]
    rcases hstep with ⟨hsound, m₁, hread⟩ | ⟨hbroken, fault, r', hread, hfault⟩
    · rw [Read.bind_of_ok hread]
      rcases ih m₁ hfits htiles with ⟨hsounds, m', hrest⟩ | ⟨earlier, e', later, fault, r', rfl, hearlier, hmore⟩
      · exact Or.inl ⟨List.forall_mem_cons.mpr ⟨hsound, hsounds⟩, m', hrest⟩
      · exact Or.inr ⟨e :: earlier, e', later, fault, r', rfl, List.forall_mem_cons.mpr ⟨hsound, hearlier⟩, hmore⟩
    · rw [Read.bind_of_error hread]
      exact Or.inr ⟨[], e, es, fault, r', rfl, by simp, hbroken, rfl, hfault⟩

/-! ### The whole input -/

section Tables
variable {ps : List Placement} {start : Nat} {contents bytes : List UInt8}

theorem fits_of_hasTables (h : HasTables ps start contents bytes) : ∀ p ∈ ps, p.Fits := by
  cases h with
  | mk _ _ _ _ hentries => exact (entries_iff.mp hentries).1

/-- Where tables follow one another, the first that is not sound stands before the others. -/
theorem firstBroken_of_tiles {placed earlier later : List Placement} {p : Placement} (hperm : placed.Perm ps)
    (htiles : Tiles 0 placed contents.length) (hplaced : placed = earlier ++ p :: later)
    (hearlier : ∀ q ∈ earlier, Sound contents q) (hbroken : ¬Sound contents p) : FirstBroken ps contents p where
  mem := hperm.mem_iff.mp (hplaced ▸ List.mem_append_right earlier List.mem_cons_self)
  broken := hbroken
  first := by
    intro q hq hq' hne
    have hpairwise := htiles.pairwise_end_le
    have hlength : p.length ≠ 0 := fun hlength => hbroken (sound_of_length_eq_zero contents hlength)
    subst hplaced
    rcases List.mem_append.mp (hperm.mem_iff.mpr hq) with hmem | hmem
    · exact absurd (hearlier q hmem) hq'
    · have hmem := (List.mem_cons.mp hmem).resolve_left hne
      have hle := (List.pairwise_cons.mp (List.pairwise_append.mp hpairwise).2.1).1 q hmem
      omega

/-- The fault of an input that has tables shows in the first table that is not sound, or behind all of them if each
    is sound. -/
theorem decode_of_hasTables (h : HasTables ps start contents bytes) :
    ((∀ p ∈ ps, Sound contents p) ∧ ∀ fault, decode bytes = .error (.malformed fault) →
      start + contents.length ≤ fault.offset) ∨
    ∃ p fault, FirstBroken ps contents p ∧ decode bytes = .error (.malformed fault) ∧
      start + p.offset ≤ fault.offset ∧ fault.offset ≤ start + (p.offset + p.length) := by
  have hfits := fits_of_hasTables h
  obtain ⟨word, es, rest, hreaches, rfl⟩ := hasTables_iff.mp h
  obtain ⟨_, ⟨htiles, -⟩, -⟩ := (Entry.reads_checkOffsets 0 _ _ _ _).mp hreaches.offsets
  have hperm := Entry.perm_arrange es
  have hlengths : ∀ e ∈ Entry.arrange es, e.length ≤ maxLength := fun e he =>
    (hfits e.toPlacement (List.mem_map_of_mem (hperm.mem_iff.mp he))).2
  have hrun := readTables_run (blank word es) hlengths htiles start rest
  rw [List.drop_zero, Nat.add_zero] at hrun
  rw [decode_of_reaches hreaches]
  unfold readContents
  rcases hrun with ⟨hsound, m, hread⟩ | ⟨earlier, e, later, fault, r, heq, hearlier, hbroken, hread, hfault⟩
  · refine Or.inl ⟨fun p hp => ?_, fun fault hfault => ?_⟩
    · obtain ⟨e, he, rfl⟩ := List.mem_map.mp hp
      exact hsound e (hperm.mem_iff.mpr he)
    · rw [mapError_malformed_iff, Read.value_bind_of_ok hread] at hfault
      exact ((stays_selfHandle m (versionOf word)).value_offset ⟨Nat.le_refl _, rfl⟩ hfault).1
  · have hplaced : (Entry.arrange es).map (·.toPlacement) =
        earlier.map (·.toPlacement) ++ e.toPlacement :: later.map (·.toPlacement) := by
      rw [heq, List.map_append, List.map_cons]
    have hfirst := firstBroken_of_tiles (hperm.map _) htiles hplaced (List.forall_mem_map.mpr hearlier) hbroken
    refine Or.inr ⟨e.toPlacement, fault, hfirst, ?_, hfault⟩
    rw [mapError_malformed_iff, Read.value, Read.bind_of_error hread]

theorem exists_readVersionWord_iff {word : UInt32} : (∃ r, readVersionWord { rest := bytes } = .ok word r) ↔
    [0xA1, 0x1C, 0xEB, 0x0B] <+: bytes ∧ 8 ≤ bytes.length ∧
      word.toNat = LittleEndian.value ((bytes.drop 4).take 4) := by
  constructor
  · rintro ⟨r, hread⟩
    obtain ⟨_, rfl, hrest, -⟩ := (reads_readVersionWord _ _ _).mp hread
    dsimp only at hrest
    rw [hrest]
    refine ⟨⟨_, (List.append_assoc _ _ _).symm⟩, ?_, ?_⟩
    · rw [List.length_append, List.length_append, LittleEndian.length_encode]
      exact Nat.le_add_right 8 _
    · change word.toNat = LittleEndian.value ((LittleEndian.encode 4 word.toNat ++ r.rest).take 4)
      rw [List.take_left' (LittleEndian.length_encode 4 _), LittleEndian.value_encode word.toNat_lt]
  · rintro ⟨⟨rest, rfl⟩, hlen, hvalue⟩
    rw [List.length_append] at hlen
    change word.toNat = LittleEndian.value (rest.take 4) at hvalue
    have htake : (rest.take 4).length = 4 := List.length_take_of_le (Nat.le_of_add_le_add_left hlen)
    have hencode := LittleEndian.encode_value (rest.take 4)
    rw [htake, ← hvalue] at hencode
    refine ⟨⟨rest.drop 4, 8⟩, (reads_readVersionWord _ _ _).mpr ⟨_, rfl, ?_, ?_⟩⟩
    · rw [hencode, List.append_assoc, List.take_append_drop]
      rfl
    · rw [hencode, List.length_append, htake]
      rfl

theorem decode_of_unsupported {word : UInt32} {r : Reader} (hword : readVersionWord { rest := bytes } = .ok word r)
    (h : ¬(0 < versionOf word ∧ versionOf word ≤ maxVersion)) :
    decode bytes = .error (.unsupportedVersion (versionOf word)) := by
  unfold decode
  rw [hword]
  exact if_pos (by omega)

/-- The version is refused exactly where the mark is right and a version word behind it gives one that cannot be
    read. -/
theorem decode_eq_unsupportedVersion_iff {version : Nat} : decode bytes = .error (.unsupportedVersion version) ↔
    [0xA1, 0x1C, 0xEB, 0x0B] <+: bytes ∧ 8 ≤ bytes.length ∧
      version = LittleEndian.value ((bytes.drop 4).take 4) % 2 ^ 24 ∧ (version = 0 ∨ 7 < version) := by
  constructor
  · intro h
    rcases malformed_or_unsupported h with ⟨fault, heq⟩ | ⟨word, r, hword, hunsupported⟩
    · cases heq
    · obtain ⟨hmark, hlen, hvalue⟩ := exists_readVersionWord_iff.mp ⟨r, hword⟩
      cases h.symm.trans (decode_of_unsupported hword hunsupported)
      rw [versionOf_eq, hvalue] at hunsupported ⊢
      unfold maxVersion at hunsupported
      exact ⟨hmark, hlen, rfl, by omega⟩
  · rintro ⟨hmark, hlen, rfl, hunsupported⟩
    have hword : ((bytes.drop 4).take 4).length = 4 := by
      rw [List.length_take, List.length_drop]
      omega
    have hvalue := toNat_ofNat_value hword
    obtain ⟨r, hword⟩ := exists_readVersionWord_iff.mpr ⟨hmark, hlen, hvalue⟩
    rw [← hvalue, ← versionOf_eq] at hunsupported ⊢
    exact decode_of_unsupported hword (by unfold maxVersion; omega)

end Tables

/-- An input is refused for its version exactly where its mark is right and the version behind it cannot be read. All
    that is wrong with any other input shows in the input or at its end. If everything is in order up to the contents
    of the tables and some table is not sound, it shows in the first such table, at its end at the latest; and if all
    tables are sound, it shows behind them. -/
theorem decode_error_spec (bytes : List UInt8) :
    (∀ version, decode bytes = .error (.unsupportedVersion version) ↔
      [0xA1, 0x1C, 0xEB, 0x0B] <+: bytes ∧ 8 ≤ bytes.length ∧
        version = LittleEndian.value ((bytes.drop 4).take 4) % 2 ^ 24 ∧ (version = 0 ∨ 7 < version)) ∧
    (∀ error, decode bytes = .error error → (∃ version, error = .unsupportedVersion version) ∨
      ∃ fault, error = .malformed fault ∧ fault.offset ≤ bytes.length) ∧
    ∀ ps start contents, HasTables ps start contents bytes →
      ((∃ p ∈ ps, ¬Sound contents p) → ∃ p fault, FirstBroken ps contents p ∧
        decode bytes = .error (.malformed fault) ∧
        start + p.offset ≤ fault.offset ∧ fault.offset ≤ start + (p.offset + p.length)) ∧
      ((∀ p ∈ ps, Sound contents p) → ∀ fault, decode bytes = .error (.malformed fault) →
        start + contents.length ≤ fault.offset) := by
  refine ⟨fun _ => decode_eq_unsupportedVersion_iff, fun error h => ?_, fun ps start contents h => ⟨?_, ?_⟩⟩
  · rcases malformed_or_unsupported h with ⟨fault, rfl⟩ | ⟨word, r, hword, hunsupported⟩
    · exact Or.inr ⟨fault, rfl, offset_le_of_decode h⟩
    · exact Or.inl ⟨versionOf word, Except.error.inj (h.symm.trans (decode_of_unsupported hword hunsupported))⟩
  · rintro ⟨p, hp, hbroken⟩
    rcases decode_of_hasTables h with ⟨hsound, -⟩ | hfault
    · exact absurd (hsound p hp) hbroken
    · exact hfault
  · intro hsound
    rcases decode_of_hasTables h with ⟨-, hfault⟩ | ⟨p, fault, hfirst, -⟩
    · exact hfault
    · exact absurd (hsound p hfirst.mem) hfirst.broken

/-- A directory that lists the last table first. -/
def crossed : List Placement := [⟨.pool .moduleHandles, 5, 1⟩, ⟨.pool .identifiers, 2, 3⟩, ⟨.carried .signatures, 0, 2⟩]

/-- A name that is no text, and a handle that breaks off. -/
def crossedContents : List UInt8 := [9, 9] ++ [1, 0xFF, 0] ++ [0x80]

def crossedBytes : List UInt8 :=
  [0xA1, 0x1C, 0xEB, 0x0B] ++ [6, 0, 0, 0] ++ [3] ++ [0x01, 5, 1, 0x07, 2, 3, 0x05, 0, 2] ++ crossedContents ++ [0]

theorem hasTables_crossed : HasTables crossed 18 crossedContents crossedBytes := by
  have hfits : ∀ p ∈ crossed, p.Fits := by
    unfold Placement.Fits
    decide
  have hentries : crossed.map Placement.encode = [[0x01, 5, 1], [0x07, 2, 3], [0x05, 0, 2]] := by decide +kernel
  have hcount : Uleb128.Spells crossed.length [3] := Uleb128.spells_iff.mpr (by decide +kernel)
  have hword : [6, 0, 0, 0].length = 4 := rfl
  have htiles : Tiles 0 [⟨.carried .signatures, 0, 2⟩, ⟨.pool .identifiers, 2, 3⟩, ⟨.pool .moduleHandles, 5, 1⟩] 6 :=
    tiles_cons_iff.mpr ⟨rfl, tiles_cons_iff.mpr ⟨rfl, tiles_cons_iff.mpr ⟨rfl, .nil⟩⟩⟩
  exact .mk hword rfl (by decide) hcount (entries_iff.mpr ⟨hfits, hentries.symm⟩) (by decide)
    crossed.reverse_perm htiles rfl

/-- Two tables are not sound, and the one that stands first is found at fault. -/
theorem decode_crossed : HasTables crossed 18 crossedContents crossedBytes ∧
    ∃ fault, decode crossedBytes = .error (.malformed fault) ∧ 20 ≤ fault.offset ∧ fault.offset ≤ 23 := by
  have hbroken : ¬Sound crossedContents ⟨.pool .identifiers, 2, 3⟩ := by
    have hread : (((blank 6 []).readPool .identifiers).value
        ⟨slice crossedContents ⟨.pool .identifiers, 2, 3⟩, 0⟩).isOk = false := by decide +kernel
    refine mt (readPool_eq_ok_iff (blank 6 []) .identifiers (by decide) 0).mpr ?_
    rintro ⟨m, r, hok⟩
    rw [Read.value_eq_ok_iff.mpr ⟨r, hok⟩] at hread
    cases hread
  obtain ⟨p, fault, hfirst, hdecode, hfault⟩ :=
    ((decode_error_spec crossedBytes).2.2 _ _ _ hasTables_crossed).1 ⟨_, by decide, hbroken⟩
  have hp := hfirst.mem
  simp only [crossed, List.mem_cons, List.not_mem_nil, or_false] at hp
  rcases hp with rfl | rfl | rfl
  · exact absurd (hfirst.first _ (by decide) hbroken (by decide)) (by decide)
  · exact ⟨hasTables_crossed, fault, hdecode, hfault⟩
  · exact absurd trivial hfirst.broken

end Module

end Stencil
