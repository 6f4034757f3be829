import Stencil.Signature
import Stencil.Proofs.Number

/-! A type is read back from its bytes if it is not nested too deep and no instantiation has more arguments
    than 16 bits can count. The number of levels that a reader may still go down bounds the depth of what it
    reads, along every argument of an instantiation alike. -/

namespace Stencil.Signature

mutual

/-- How deep a type is nested. The outermost type is at depth zero. -/
def depth : Signature → Nat
  | .vector s | .reference s | .mutableReference s => depth s + 1
  | .instantiation _ ss => depthAll ss
  | _ => 0

/-- How deep types that are one level down are nested. -/
def depthAll : List Signature → Nat
  | [] => 0
  | s :: ss => max (depth s + 1) (depthAll ss)

end

mutual

/-- No instantiation in a type has more arguments than 16 bits can count. -/
def Narrow : Signature → Prop
  | .vector s | .reference s | .mutableReference s => Narrow s
  | .instantiation _ ss => ss.length ≤ 0xFFFF ∧ NarrowAll ss
  | _ => True

/-- The same of types in a list. -/
def NarrowAll : List Signature → Prop
  | [] => True
  | s :: ss => Narrow s ∧ NarrowAll ss

end

theorem depthAll_lt_iff {levels : Nat} {ss : List Signature} :
    depthAll ss < levels + 1 ↔ ∀ s ∈ ss, s.depth < levels := by
  induction ss with
  | nil => simp [depthAll]
  | cons s ss ih =>
    rw [depthAll, List.forall_mem_cons, ← ih]
    omega

theorem narrowAll_iff {ss : List Signature} : NarrowAll ss ↔ ∀ s ∈ ss, s.Narrow := by
  induction ss with
  | nil => simp [NarrowAll]
  | cons s ss ih => rw [NarrowAll, List.forall_mem_cons, ih]

theorem encodeAll_eq (ss : List Signature) : encodeAll ss = ss.flatMap encode := by
  induction ss with
  | nil => rfl
  | cons s ss ih => rw [encodeAll, List.flatMap_cons, ih]

theorem encode_ne_nil (s : Signature) : encode s ≠ [] := by
  cases s with
  | uint w => cases w <;> exact List.cons_ne_nil _ _
  | _ => exact List.cons_ne_nil _ _

/-- A type that a reader with so many levels to go down may read. -/
def Fits (levels : Nat) (s : Signature) : Prop := s.depth < levels ∧ s.Narrow

theorem fits_vector {levels : Nat} {s : Signature} : Fits (levels + 1) (.vector s) ↔ Fits levels s := by
  simp [Fits, depth, Narrow]

theorem fits_reference {levels : Nat} {s : Signature} : Fits (levels + 1) (.reference s) ↔ Fits levels s := by
  simp [Fits, depth, Narrow]

theorem fits_mutableReference {levels : Nat} {s : Signature} :
    Fits (levels + 1) (.mutableReference s) ↔ Fits levels s := by
  simp [Fits, depth, Narrow]

theorem fits_instantiation {levels : Nat} {handle : UInt16} {ss : List Signature} :
    Fits (levels + 1) (.instantiation handle ss) ↔ ss.length ≤ 0xFFFF ∧ ∀ s ∈ ss, Fits levels s := by
  rw [Fits, depth, Narrow, depthAll_lt_iff, narrowAll_iff]
  constructor
  · intro h
    obtain ⟨hd, hlen, hn⟩ := h
    exact ⟨hlen, fun s hs => ⟨hd s hs, hn s hs⟩⟩
  · intro h
    obtain ⟨hlen, h⟩ := h
    exact ⟨fun s hs => (h s hs).1, hlen, fun s hs => (h s hs).2⟩

/-- The arguments of an instantiation are read back, as many as their number says. -/
theorem reads_arguments {levels : Nat} (ih : Read.ReadsBack (readWithin levels) (Fits levels) encode) :
    Read.Reads (do
        let handle ← Uleb128.read16
        let count ← Uleb128.read16
        return .instantiation handle (← Read.times (readWithin levels) count.toNat))
      fun _ s rest => Fits (levels + 1) s ∧ encode s = 0x0B :: rest := by
  have harguments (handle : UInt16) := Uleb128.readsBack_read16.bind fun count =>
    (ih.times count.toNat).map (Signature.instantiation handle)
  refine (Uleb128.readsBack_read16.bind harguments).of_iff fun _ s rest => ?_
  constructor
  · intro h
    obtain ⟨handle, _, -, ⟨count, _, -, ⟨ss, ⟨⟨hlen, hss⟩, rfl⟩, rfl⟩, rfl⟩, rfl⟩ := h
    have hcount := count.toNat_lt
    refine ⟨fits_instantiation.mpr ⟨by omega, hss⟩, ?_⟩
    rw [encode, encodeAll_eq, hlen]
  · intro h
    obtain ⟨hfits, heq⟩ := h
    cases s with
    | instantiation handle ss =>
      obtain ⟨hlen, hss⟩ := fits_instantiation.mp hfits
      rw [encode, encodeAll_eq, List.cons.injEq] at heq
      have hcount : (UInt16.ofNat ss.length).toNat = ss.length := by
        rw [UInt16.toNat_ofNat']
        omega
      refine ⟨handle, _, trivial, ⟨UInt16.ofNat ss.length, _, trivial, ⟨ss, ⟨⟨hcount.symm, hss⟩, rfl⟩, rfl⟩, rfl⟩, ?_⟩
      rw [hcount]
      exact heq.2.symm
    | uint w => cases w <;> simp [encode] at heq
    | _ => simp [encode] at heq

theorem readsBack_readWithin (levels : Nat) : Read.ReadsBack (readWithin levels) (Fits levels) encode := by
  induction levels with
  | zero =>
    exact Read.reads_fail _ fun _ s bytes h => Nat.not_lt_zero _ h.1.1
  | succ levels ih =>
    refine Read.Reads.after_offset fun start => ?_
    refine Read.ReadsBack.of_byte (fun s _ => encode_ne_nil s) fun tag => ?_
    split
    case h_11 => exact reads_arguments ih
    case h_16 =>
      refine Read.reads_failAt start _ fun _ s rest h => ?_
      obtain ⟨-, heq⟩ := h
      cases s with
      | uint w => cases w <;> obtain ⟨rfl, -⟩ := List.cons.inj heq <;> contradiction
      | _ =>
        rw [encode] at heq
        obtain ⟨rfl, -⟩ := List.cons.inj heq
        contradiction
    case h_6 | h_7 | h_10 =>
      refine (ih.map _).of_iff fun _ s rest => ?_
      cases s with
      | uint w => cases w <;> simp [encode]
      | _ => simp [encode, fits_vector, fits_reference, fits_mutableReference, eq_comm]
    case h_8 | h_9 =>
      refine (Uleb128.readsBack_read16.map _).of_iff fun _ s rest => ?_
      cases s with
      | uint w => cases w <;> simp [encode]
      | _ => simp [encode, Fits, depth, Narrow, eq_comm]
    all_goals
      refine (Read.reads_pure _).of_iff fun _ s rest => ?_
      cases s with
      | uint w => cases w <;> simp [encode, Fits, depth, Narrow]
      | _ => simp [encode, Fits, depth, Narrow]

theorem readsBack_read : Read.ReadsBack read (fun s => s.depth ≤ maxTypeDepth ∧ s.Narrow) encode := by
  refine (readsBack_readWithin (maxTypeDepth + 1)).of_iff fun _ s bytes => ?_
  rw [Fits, Nat.lt_add_one_iff]

end Stencil.Signature
