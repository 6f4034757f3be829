import Stencil.Proofs.Records

/-! The entries of a directory are read back from their bytes; that no two are of one kind is part of reading. -/

namespace Stencil

/-- An entry can say where its table begins and how long it is. -/
def Placement.Fits (p : Placement) : Prop := p.offset ≤ maxLength ∧ p.length ≤ maxLength

namespace Entry

/-- Entries at the places where they stand if the first stands at `start`. -/
def locate (start : Nat) : List Placement → List Entry
  | [] => []
  | p :: ps => { p with place := start } :: locate (start + p.encode.length) ps

theorem map_toPlacement_locate (start : Nat) (ps : List Placement) : (locate start ps).map (·.toPlacement) = ps := by
  induction ps generalizing start with
  | nil => rfl
  | cons p ps ih => rw [locate, List.map_cons, ih]

theorem map_kind_locate (start : Nat) (ps : List Placement) :
    (locate start ps).map (·.kind) = ps.map (·.kind) := by
  conv => rhs; rw [← map_toPlacement_locate start ps, List.map_map]
  rfl

theorem reads_fields (kind : Table) (place : Nat) : Read.Reads (do
      let offset ← Uleb128.read maxLength
      let length ← Uleb128.read maxLength
      return ({ kind, offset, length, place } : Entry))
    fun _ e rest => ∃ p : Placement, e = { p with place } ∧ p.kind = kind ∧ p.Fits ∧
      rest = Uleb128.encode p.offset ++ Uleb128.encode p.length := by
  have hlength (offset : Nat) := (Uleb128.readsBack_read maxLength).map fun length =>
    ({ kind, offset, length, place } : Entry)
  refine ((Uleb128.readsBack_read maxLength).bind hlength).of_iff fun _ e rest => ?_
  constructor
  · intro h
    obtain ⟨offset, _, ⟨hoffset, -⟩, ⟨length, ⟨⟨hlength, -⟩, rfl⟩, rfl⟩, rfl⟩ := h
    exact ⟨⟨kind, offset, length⟩, rfl, rfl, ⟨hoffset, hlength⟩, rfl⟩
  · intro h
    obtain ⟨p, rfl, rfl, ⟨hoffset, hlength⟩, rfl⟩ := h
    have hmax : maxLength < 2 ^ 64 := by decide
    exact ⟨p.offset, _, ⟨hoffset, by omega⟩, ⟨p.length, ⟨⟨hlength, by omega⟩, rfl⟩, rfl⟩, rfl⟩

theorem reads_after_code (seen : List Table) (place : Nat) (code : UInt8) : Read.Reads
    (match Table.ofCode? code with
     | none => Read.failAt place (.unknownTable code)
     | some kind =>
       if kind ∈ seen then Read.failAt place (.duplicateTable kind)
       else do
         let offset ← Uleb128.read maxLength
         let length ← Uleb128.read maxLength
         return ({ kind, offset, length, place } : Entry))
    fun _ e rest => ∃ p : Placement, e = { p with place } ∧ (p.kind ∉ seen ∧ p.Fits) ∧
      p.encode = code :: rest := by
  cases hkind : Table.ofCode? code with
  | none =>
    refine Read.reads_failAt place _ fun _ e rest h => ?_
    obtain ⟨p, -, -, heq⟩ := h
    obtain ⟨rfl, -⟩ := List.cons.inj heq
    rw [Table.ofCode?_code] at hkind
    cases hkind
  | some kind =>
    have hcode : kind.code = code := Table.code_of_ofCode? hkind
    -- No two kinds have one code.
    have hinj {p : Placement} (hp : p.kind.code = code) : p.kind = kind := by
      rw [← hp, Table.ofCode?_code] at hkind
      exact Option.some.inj hkind
    dsimp only
    split
    · rename_i hseen
      refine Read.reads_failAt place _ fun _ e rest h => ?_
      obtain ⟨p, -, ⟨hp, -⟩, heq⟩ := h
      rw [hinj (List.cons.inj heq).1] at hp
      exact hp hseen
    · rename_i hseen
      refine (reads_fields kind place).of_iff fun _ e rest => ?_
      constructor
      · intro h
        obtain ⟨p, rfl, rfl, hfits, rfl⟩ := h
        exact ⟨p, rfl, ⟨hseen, hfits⟩, by rw [Placement.encode, hcode]⟩
      · intro h
        obtain ⟨p, rfl, ⟨-, hfits⟩, heq⟩ := h
        obtain ⟨hp, hrest⟩ := List.cons.inj heq
        exact ⟨p, rfl, hinj hp, hfits, hrest.symm⟩

theorem reads_read (seen : List Table) : Read.Reads (read seen) fun start e bytes =>
    ∃ p : Placement, e = { p with place := start } ∧ (p.kind ∉ seen ∧ p.Fits) ∧ bytes = p.encode := by
  refine (Read.reads_offset.bind fun place => Read.reads_byte.bind (reads_after_code seen place)).of_iff
    fun start e bytes => ?_
  constructor
  · intro h
    obtain ⟨_, _, _, ⟨rfl, rfl⟩, ⟨code, _, rest, rfl, ⟨p, rfl, hp, heq⟩, rfl⟩, rfl⟩ := h
    exact ⟨p, rfl, hp, heq.symm⟩
  · intro h
    obtain ⟨p, rfl, hp, rfl⟩ := h
    exact ⟨start, [], p.encode, ⟨rfl, rfl⟩, ⟨p.kind.code, [p.kind.code], _, rfl, ⟨p, rfl, hp, rfl⟩, rfl⟩, rfl⟩

theorem reads_readAll (seen : List Table) (count : Nat) : Read.Reads (readAll seen count) fun start es bytes =>
    ∃ ps, es = locate start ps ∧ ps.length = count ∧ (ps.map (·.kind)).Nodup ∧
      (∀ p ∈ ps, p.kind ∉ seen ∧ p.Fits) ∧ bytes = ps.flatMap Placement.encode := by
  induction count generalizing seen with
  | zero =>
    refine (Read.reads_pure ([] : List Entry)).of_iff fun start es bytes => ?_
    constructor
    · intro h
      obtain ⟨rfl, rfl⟩ := h
      exact ⟨[], rfl, rfl, List.nodup_nil, by simp, rfl⟩
    · intro h
      obtain ⟨ps, rfl, hlen, -, -, rfl⟩ := h
      obtain rfl := List.length_eq_zero_iff.mp hlen
      exact ⟨rfl, rfl⟩
  | succ count ih =>
    refine ((reads_read seen).bind fun e => (ih (e.kind :: seen)).map (e :: ·)).of_iff fun start es bytes => ?_
    constructor
    · intro h
      obtain ⟨_, _, _, ⟨p, rfl, hp, rfl⟩, ⟨_, ⟨ps, rfl, rfl, hnodup, hps, rfl⟩, rfl⟩, rfl⟩ := h
      refine ⟨p :: ps, rfl, rfl, ?_, ?_, rfl⟩
      · refine List.nodup_cons.mpr ⟨fun hmem => ?_, hnodup⟩
        obtain ⟨q, hq, hkind⟩ := List.mem_map.mp hmem
        exact (hps q hq).1 (hkind ▸ List.mem_cons_self)
      · refine List.forall_mem_cons.mpr ⟨hp, fun q hq => ⟨fun hmem => ?_, (hps q hq).2⟩⟩
        exact (hps q hq).1 (List.mem_cons_of_mem _ hmem)
    · intro h
      obtain ⟨ps, rfl, hlen, hnodup, hps, rfl⟩ := h
      obtain ⟨p, ps, rfl⟩ := List.exists_cons_of_length_eq_add_one hlen
      obtain ⟨hp, hps⟩ := List.forall_mem_cons.mp hps
      obtain ⟨hnotin, hnodup⟩ := List.nodup_cons.mp hnodup
      refine ⟨_, p.encode, _, ⟨p, rfl, hp, rfl⟩, ⟨_, ⟨ps, rfl, by simpa using hlen, hnodup, ?_, rfl⟩, rfl⟩, rfl⟩
      intro q hq
      refine ⟨fun hmem => ?_, (hps q hq).2⟩
      rcases List.mem_cons.mp hmem with hkind | hmem
      · exact hnotin (List.mem_map.mpr ⟨q, hq, hkind⟩)
      · exact (hps q hq).1 hmem

end Entry

end Stencil
