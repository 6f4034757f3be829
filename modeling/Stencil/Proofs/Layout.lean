import Mathlib.Data.List.Chain
import Mathlib.Data.List.Nodup
import Mathlib.Data.List.Perm.Subperm
import Stencil.Proofs.Directory

/-! Where the tables of a module stand. Tables that follow one another without a gap do so in the order of
    their offsets; where several stand at one offset all but the last are empty. So the one order by offset and
    length finds the tables one after the other whenever any order does, and empty tables at one offset keep the
    order of the directory. -/

namespace Stencil

/-! ### Tables without gaps -/

/-- Tables follow one another from `start` to `stop`. -/
inductive Tiles : Nat → List Placement → Nat → Prop
  | nil {start : Nat} : Tiles start [] start
  | cons {p : Placement} {rest : List Placement} {stop : Nat} (h : Tiles (p.offset + p.length) rest stop) :
    Tiles p.offset (p :: rest) stop

theorem tiles_cons_iff {start stop : Nat} {p : Placement} {rest : List Placement} :
    Tiles start (p :: rest) stop ↔ p.offset = start ∧ Tiles (start + p.length) rest stop := by
  constructor
  · intro h
    cases h with
    | cons h => exact ⟨rfl, h⟩
  · intro h'
    obtain ⟨rfl, h⟩ := h'
    exact .cons h

theorem Tiles.le {start stop : Nat} {ps : List Placement} (h : Tiles start ps stop) : start ≤ stop := by
  induction h with
  | nil => exact Nat.le_refl _
  | cons _ ih => omega

namespace Entry

theorem reads_checkOffsets (expected : Nat) (es : List Entry) : Read.Reads (checkOffsets expected es)
    fun _ total bytes => Tiles expected (es.map (·.toPlacement)) total ∧ bytes = [] := by
  induction es generalizing expected with
  | nil =>
    refine (Read.reads_pure expected).of_iff fun _ total bytes => ?_
    constructor
    · intro h
      obtain ⟨rfl, rfl⟩ := h
      exact ⟨.nil, rfl⟩
    · intro h
      obtain ⟨h, rfl⟩ := h
      cases h
      exact ⟨rfl, rfl⟩
  | cons e es ih =>
    rw [checkOffsets]
    split
    · rename_i hoffset
      refine (ih (expected + e.length)).of_iff fun _ total bytes => ?_
      rw [List.map_cons, tiles_cons_iff]
      exact and_congr_left fun _ => ⟨fun h => ⟨hoffset, h⟩, fun h => h.2⟩
    · rename_i hoffset
      refine Read.reads_failAt e.place _ fun _ total bytes h => ?_
      rw [List.map_cons, tiles_cons_iff] at h
      exact hoffset h.1.1

/-! ### The order of the tables -/

theorem precedes_iff {a b : Entry} :
    precedes a b = true ↔ a.offset < b.offset ∨ a.offset = b.offset ∧ a.length ≤ b.length := by
  simp [precedes]

end Entry

/-- `p` stands before `q` by offset, then by length, then by a rank of the kinds. -/
def Placement.Before (rank : Table → Nat) (p q : Placement) : Prop :=
  p.offset < q.offset ∨ p.offset = q.offset ∧
    (p.length < q.length ∨ p.length = q.length ∧ rank p.kind < rank q.kind)

instance (rank : Table → Nat) : Trans (Placement.Before rank) (Placement.Before rank) (Placement.Before rank) where
  trans {p q r} hpq hqr := by
    unfold Placement.Before at *
    omega

namespace Entry

theorem perm_insert (e : Entry) (es : List Entry) : (insert e es).Perm (e :: es) := by
  induction es with
  | nil => exact .refl _
  | cons first rest ih =>
    rw [insert]
    split
    · exact .refl _
    · exact (ih.cons first).trans (.swap e first rest)

theorem perm_arrange (es : List Entry) : (arrange es).Perm es := by
  induction es with
  | nil => exact .refl _
  | cons e es ih => exact (perm_insert e (arrange es)).trans (ih.cons e)

theorem pairwise_insert {rank : Table → Nat} {e : Entry} {es : List Entry}
    (hes : es.Pairwise fun a b => a.Before rank b.toPlacement) (he : ∀ a ∈ es, rank e.kind < rank a.kind) :
    (insert e es).Pairwise fun a b => a.Before rank b.toPlacement := by
  induction es with
  | nil => exact List.pairwise_singleton _ _
  | cons first rest ih =>
    obtain ⟨hfirst, hrest⟩ := List.pairwise_cons.mp hes
    obtain ⟨hrank, he⟩ := List.forall_mem_cons.mp he
    rw [insert]
    split
    · rename_i hprec
      rw [precedes_iff] at hprec
      have hbefore : e.Before rank first.toPlacement := by
        unfold Placement.Before
        omega
      refine List.pairwise_cons.mpr ⟨List.forall_mem_cons.mpr ⟨hbefore, fun a ha => ?_⟩, hes⟩
      exact Trans.trans hbefore (hfirst a ha)
    · rename_i hprec
      rw [precedes_iff] at hprec
      have hbefore : first.Before rank e.toPlacement := by
        unfold Placement.Before
        omega
      refine List.pairwise_cons.mpr ⟨fun a ha => ?_, ih hrest he⟩
      rcases List.mem_cons.mp ((perm_insert e rest).mem_iff.mp ha) with rfl | ha
      · exact hbefore
      · exact hfirst a ha

/-- Entries whose kinds rise in rank are arranged by offset, length and rank. -/
theorem pairwise_arrange {rank : Table → Nat} {es : List Entry} (h : es.Pairwise fun a b => rank a.kind < rank b.kind) :
    (arrange es).Pairwise fun a b => a.Before rank b.toPlacement := by
  induction es with
  | nil => exact .nil
  | cons e es ih =>
    obtain ⟨he, hes⟩ := List.pairwise_cons.mp h
    exact pairwise_insert (ih hes) fun a ha => he a ((perm_arrange es).mem_iff.mp ha)

end Entry

/-- `placed` are the tables of a directory `ps` in the order in which they are read. -/
def Arranged (ps placed : List Placement) : Prop :=
  placed.Perm ps ∧ placed.Pairwise (Placement.Before fun kind => (ps.map (·.kind)).idxOf kind)

theorem pairwise_idxOf {kinds : List Table} (h : kinds.Nodup) :
    kinds.Pairwise fun a b => kinds.idxOf a < kinds.idxOf b := by
  rw [List.pairwise_iff_getElem]
  intro i j hi hj hlt
  rw [h.idxOf_getElem i hi, h.idxOf_getElem j hj]
  exact hlt

theorem arranged_arrange {ps : List Placement} (h : (ps.map (·.kind)).Nodup) (start : Nat) :
    Arranged ps ((Entry.arrange (Entry.locate start ps)).map (·.toPlacement)) := by
  constructor
  · have hperm := (Entry.perm_arrange (Entry.locate start ps)).map (·.toPlacement)
    rw [Entry.map_toPlacement_locate] at hperm
    exact hperm
  · have hrank := pairwise_idxOf h
    rw [← Entry.map_kind_locate start, List.pairwise_map] at hrank
    rw [List.pairwise_map, ← Entry.map_kind_locate start]
    exact Entry.pairwise_arrange hrank

theorem Entry.nodup_kind_arrange {ps : List Placement} (h : (ps.map (·.kind)).Nodup) (start : Nat) :
    ((arrange (locate start ps)).map (·.kind)).Nodup := by
  have hperm := (perm_arrange (locate start ps)).map (·.kind)
  rw [map_kind_locate] at hperm
  exact hperm.nodup_iff.mpr h

theorem Arranged.eq {ps placed placed' : List Placement} (h : Arranged ps placed) (h' : Arranged ps placed') :
    placed = placed' := by
  refine List.Perm.eq_of_pairwise (fun p q _ _ hpq hqp => ?_) h.2 h'.2 (h.1.trans h'.1.symm)
  unfold Placement.Before at hpq hqp
  omega

theorem Tiles.start_le {start stop : Nat} {ps : List Placement} (h : Tiles start ps stop) :
    ∀ p ∈ ps, start ≤ p.offset := by
  induction h with
  | nil => simp
  | cons _ ih =>
    refine List.forall_mem_cons.mpr ⟨Nat.le_refl _, fun q hq => ?_⟩
    have := ih q hq
    omega

theorem Tiles.pairwise_end_le {start stop : Nat} {ps : List Placement} (h : Tiles start ps stop) :
    ps.Pairwise fun p q => p.offset + p.length ≤ q.offset := by
  induction h with
  | nil => exact .nil
  | cons h ih => exact List.pairwise_cons.mpr ⟨h.start_le, ih⟩

theorem Tiles.pairwise {start stop : Nat} {ps : List Placement} (h : Tiles start ps stop) :
    ps.Pairwise fun p q => p.offset < q.offset ∨ p.offset = q.offset ∧ p.length ≤ q.length :=
  h.pairwise_end_le.imp fun hle => by omega

theorem Tiles.of_map_eq {start stop : Nat} {ps qs : List Placement} (h : Tiles start ps stop)
    (heq : qs.map (fun p => (p.offset, p.length)) = ps.map fun p => (p.offset, p.length)) : Tiles start qs stop := by
  induction h generalizing qs with
  | nil =>
    obtain rfl := List.map_eq_nil_iff.mp heq
    exact .nil
  | cons h ih =>
    obtain ⟨q, qs, rfl, hq, hqs⟩ := List.map_eq_cons_iff.mp heq
    obtain ⟨hoffset, hlength⟩ := Prod.mk.inj hq
    exact tiles_cons_iff.mpr ⟨hoffset, by rw [hlength]; exact ih hqs⟩

/-- Tables that follow one another in some order do so in the order in which they are read. -/
theorem Arranged.tiles {start stop : Nat} {ps placed order : List Placement} (h : Arranged ps placed)
    (hperm : order.Perm ps) (horder : Tiles start order stop) : Tiles start placed stop := by
  -- Both are sorted by offset and length, so they have the same offsets and lengths in the same places.
  let le (a b : Nat × Nat) : Prop := a.1 < b.1 ∨ a.1 = b.1 ∧ a.2 ≤ b.2
  have hanti (a b : Nat × Nat) (hab : le a b) (hba : le b a) : a = b := by
    dsimp only [le] at hab hba
    exact Prod.ext (by omega) (by omega)
  have hplaced : (placed.map fun p => (p.offset, p.length)).Pairwise le := by
    rw [List.pairwise_map]
    refine h.2.imp fun hpq => ?_
    unfold Placement.Before at hpq
    dsimp only [le]
    omega
  have horder' : (order.map fun p => (p.offset, p.length)).Pairwise le := by
    rw [List.pairwise_map]
    exact horder.pairwise
  exact horder.of_map_eq (List.Perm.eq_of_pairwise (fun a b _ _ => hanti a b) hplaced horder'
    ((h.1.trans hperm.symm).map _))

/-! ### The places that a writer gives -/

namespace Module

theorem tiles_iff_placements {start stop : Nat} {ps : List Placement} {tables : List (Table × List UInt8)}
    (h : ps.map (fun p => (p.kind, p.length)) = tables.map fun t => (t.1, t.2.length)) :
    Tiles start ps stop ↔ ps = placements start tables ∧ stop = start + (tables.flatMap (·.2)).length := by
  induction tables generalizing start ps with
  | nil =>
    obtain rfl := List.map_eq_nil_iff.mp h
    constructor
    · intro h
      cases h
      exact ⟨rfl, rfl⟩
    · intro h'
      obtain ⟨-, rfl⟩ := h'
      exact .nil
  | cons t tables ih =>
    obtain ⟨kind, contents⟩ := t
    obtain ⟨p, ps, rfl, hp, hps⟩ := List.map_eq_cons_iff.mp h
    obtain ⟨rfl, hlength⟩ := Prod.mk.inj hp
    rw [tiles_cons_iff, ih hps, hlength, placements, List.flatMap_cons, List.length_append, List.cons.injEq,
      ← Nat.add_assoc, and_assoc.symm]
    refine and_congr_left fun _ => and_congr_left fun _ => ?_
    constructor
    · rintro rfl
      exact congrArg (Placement.mk p.kind p.offset) hlength
    · intro heq
      rw [heq]

theorem map_placements (start : Nat) (tables : List (Table × List UInt8)) :
    (placements start tables).map (fun p => (p.kind, p.length)) = tables.map fun t => (t.1, t.2.length) := by
  induction tables generalizing start with
  | nil => rfl
  | cons t tables ih => rw [placements, List.map_cons, ih, List.map_cons]

theorem map_kind_placements (start : Nat) (tables : List (Table × List UInt8)) :
    (placements start tables).map (·.kind) = tables.map (·.1) := by
  have h := congrArg (List.map Prod.fst) (map_placements start tables)
  rw [List.map_map, List.map_map] at h
  exact h

theorem end_le_of_mem_placements {start : Nat} {tables : List (Table × List UInt8)} {p : Placement}
    (h : p ∈ placements start tables) : p.offset + p.length ≤ start + (tables.flatMap (·.2)).length := by
  induction tables generalizing start with
  | nil => cases h
  | cons t tables ih =>
    rw [List.flatMap_cons, List.length_append]
    rcases List.mem_cons.mp h with rfl | h
    · dsimp only
      omega
    · have := ih h
      omega

/-- Places are in order exactly if of two tables next to each other that are both empty the one that ranks lower
    comes first. -/
theorem pairwise_placements_iff {rank : Table → Nat} (start : Nat) {tables : List (Table × List UInt8)} :
    (placements start tables).Pairwise (Placement.Before rank) ↔
      tables.IsChain fun a b => a.2 = [] → b.2 = [] → rank a.1 < rank b.1 := by
  rw [← List.isChain_iff_pairwise]
  induction tables generalizing start with
  | nil => simp [placements]
  | cons a tables ih =>
    cases tables with
    | nil => simp [placements]
    | cons b tables =>
      obtain ⟨kind, contents⟩ := a
      obtain ⟨kind', contents'⟩ := b
      have ih := ih (start + contents.length)
      rw [placements] at ih
      rw [placements, placements, List.isChain_cons_cons, ih, List.isChain_cons_cons]
      refine and_congr_left fun _ => ?_
      unfold Placement.Before
      dsimp only
      rw [← List.length_eq_zero_iff, ← List.length_eq_zero_iff]
      omega

theorem findPlacement_eq_ok_iff {placed : List Placement} (h : (placed.map (·.kind)).Nodup) {kind : Table}
    {p : Placement} : findPlacement placed kind = .ok p ↔ p ∈ placed ∧ p.kind = kind := by
  unfold findPlacement
  constructor
  · intro heq
    split at heq
    · rename_i q hfind
      cases heq
      exact ⟨List.mem_of_find?_eq_some hfind, by simpa using List.find?_some hfind⟩
    · cases heq
  · intro h'
    obtain ⟨hp, rfl⟩ := h'
    split
    · rename_i q hfind
      have hq := List.mem_of_find?_eq_some hfind
      have hkind : q.kind = p.kind := by simpa using List.find?_some hfind
      rw [List.inj_on_of_nodup_map h hq hp hkind]
    · rename_i hnone
      have := List.find?_eq_none.mp hnone p hp
      simp at this

theorem mapM_findPlacement_eq_ok_iff {placed ps : List Placement} (h : (placed.map (·.kind)).Nodup)
    {kinds : List Table} :
    kinds.mapM (findPlacement placed) = .ok ps ↔ ps.map (·.kind) = kinds ∧ ∀ p ∈ ps, p ∈ placed := by
  induction kinds generalizing ps with
  | nil =>
    rw [List.mapM_nil]
    constructor
    · intro h
      cases h
      simp
    · intro h'
      obtain ⟨hnil, -⟩ := h'
      rw [List.map_eq_nil_iff.mp hnil]
      rfl
  | cons kind kinds ih =>
    rw [List.mapM_cons]
    constructor
    · intro hok
      cases hfind : findPlacement placed kind with
      | error e => simp [hfind, bind, Except.bind] at hok
      | ok p =>
        cases hrest : kinds.mapM (findPlacement placed) with
        | error e => simp [hfind, hrest, bind, Except.bind] at hok
        | ok ps' =>
          simp only [hfind, hrest, bind, Except.bind, pure, Except.pure] at hok
          cases hok
          obtain ⟨hp, hkind⟩ := (findPlacement_eq_ok_iff h).mp hfind
          obtain ⟨hkinds, hps⟩ := ih.mp hrest
          exact ⟨by rw [List.map_cons, hkind, hkinds], List.forall_mem_cons.mpr ⟨hp, hps⟩⟩
    · intro h'
      obtain ⟨hmap, hps⟩ := h'
      obtain ⟨p, ps, rfl, hkind, hkinds⟩ := List.map_eq_cons_iff.mp hmap
      obtain ⟨hp, hps⟩ := List.forall_mem_cons.mp hps
      have hfind := (findPlacement_eq_ok_iff h).mpr ⟨hp, hkind⟩
      have hrest := ih.mpr ⟨hkinds, hps⟩
      simp only [hfind, hrest, bind, Except.bind, pure, Except.pure]

/-- Tables have entries for any directory that lists their kinds. -/
theorem exists_entries {placed : List Placement} {kinds : List Table} (h : kinds ⊆ placed.map (·.kind)) :
    ∃ ps : List Placement, ps.map (·.kind) = kinds ∧ ∀ p ∈ ps, p ∈ placed := by
  induction kinds with
  | nil => exact ⟨[], rfl, by simp⟩
  | cons kind kinds ih =>
    obtain ⟨hkind, hkinds⟩ := List.cons_subset.mp h
    obtain ⟨p, hp, rfl⟩ := List.mem_map.mp hkind
    obtain ⟨ps, rfl, hps⟩ := ih hkinds
    exact ⟨p :: ps, rfl, List.forall_mem_cons.mpr ⟨hp, hps⟩⟩

/-- Entries of a directory that lists each kind of table once are all the tables. -/
theorem perm_of_entries {placed ps : List Placement} (h : (ps.map (·.kind)).Nodup)
    (hperm : (ps.map (·.kind)).Perm (placed.map (·.kind))) (hps : ∀ p ∈ ps, p ∈ placed) : ps.Perm placed := by
  refine (List.subperm_of_subset (List.Nodup.of_map _ h) hps).perm_of_length_le ?_
  simpa using hperm.length_eq.ge

end Module

end Stencil
