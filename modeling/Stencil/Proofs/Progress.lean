import Mathlib.Algebra.Order.BigOperators.Group.List
import Mathlib.Algebra.Order.Group.Nat
import Stencil.Proofs.Decoding

/-! Reading gets on, and what it makes of its input is no larger than the input. Each record uses up a byte at least,
    so a loop over records makes no more turns than there are bytes, whatever number of records the input announces.
    And as each part of a record stands for bytes of its own, all that a module holds counts for no more than the bytes
    from which it was read. -/

namespace Stencil

/-! ### Loops -/

namespace Read
variable {α : Type} {record : Read α}

/-- Records that are read one after the other. -/
inductive Chain (record : Read α) : Reader → List α → Reader → Prop
  | nil (r : Reader) : Chain record r [] r
  | cons {r r₁ r' : Reader} {a : α} {as : List α} (h : record r = .ok a r₁) (hs : Chain record r₁ as r') :
    Chain record r (a :: as) r'

/-- A loop ends wherever it begins. It reads records one after the other, no more of them than there are bytes, until
    it is done or comes to a record that cannot be read. -/
def Ends (record : Read α) (loop : Read (List α)) (Done : List α → Reader → Prop) : Prop :=
  ∀ r, ∃ as r', Chain record r as r' ∧ as.length + r'.rest.length ≤ r.rest.length ∧
    (Done as r' ∧ loop r = .ok as r' ∨
      ¬Done as r' ∧ ∃ fault r'', record r' = .error fault r'' ∧ loop r = .error fault r'')

section Progress
variable (progress : Progress record)
include progress

theorem Chain.length_add_le {r r' : Reader} {as : List α} (h : Chain record r as r') :
    as.length + r'.rest.length ≤ r.rest.length := by
  induction h with
  | nil r => exact Nat.le_of_eq (Nat.zero_add _)
  | cons h _ ih =>
    have hlt := progress _ _ _ h
    rw [List.length_cons]
    omega

/-- Reading up to the end of the bytes ends. -/
theorem ends_toEnd : Ends record (toEnd record progress) fun _ r' => r'.rest = [] := by
  intro r
  induction hlen : r.rest.length using Nat.strongRecOn generalizing r with
  | ind n ih =>
    subst hlen
    by_cases hnil : r.rest = []
    · exact ⟨[], r, .nil r, Nat.le_of_eq (Nat.zero_add _), Or.inl ⟨hnil, toEnd_of_nil progress hnil⟩⟩
    · cases hread : record r with
      | error fault r' =>
        exact ⟨[], r, .nil r, Nat.le_of_eq (Nat.zero_add _),
          Or.inr ⟨hnil, fault, r', hread, toEnd_of_error progress hnil hread⟩⟩
      | ok a r₁ =>
        obtain ⟨as, r', hchain, -, hloop⟩ := ih _ (progress r a r₁ hread) r₁ rfl
        have hcons := Chain.cons hread hchain
        refine ⟨a :: as, r', hcons, hcons.length_add_le progress, ?_⟩
        rw [toEnd_of_ok progress hread]
        rcases hloop with ⟨hdone, hok⟩ | ⟨hdone, fault, r'', hfault, herror⟩
        · exact Or.inl ⟨hdone, by rw [hok]⟩
        · exact Or.inr ⟨hdone, fault, r'', hfault, by rw [herror]⟩

/-- Reading as many records as a number says ends, and with no more records than there are bytes. -/
theorem ends_times (count : Nat) : Ends record (times record count) fun as _ => as.length = count := by
  intro r
  induction count generalizing r with
  | zero => exact ⟨[], r, .nil r, Nat.le_of_eq (Nat.zero_add _), Or.inl ⟨rfl, rfl⟩⟩
  | succ count ih =>
    rw [times]
    cases hread : record r with
    | error fault r' =>
      exact ⟨[], r, .nil r, Nat.le_of_eq (Nat.zero_add _),
        Or.inr ⟨(Nat.succ_ne_zero count).symm, fault, r', hread, bind_of_error hread _⟩⟩
    | ok a r₁ =>
      obtain ⟨as, r', hchain, -, hloop⟩ := ih r₁
      have hcons := Chain.cons hread hchain
      refine ⟨a :: as, r', hcons, hcons.length_add_le progress, ?_⟩
      rw [bind_of_ok hread]
      rcases hloop with ⟨hdone, hok⟩ | ⟨hdone, fault, r'', hfault, herror⟩
      · exact Or.inl ⟨congrArg Nat.succ hdone, bind_of_ok hok _⟩
      · exact Or.inr ⟨mt Nat.succ.inj hdone, fault, r'', hfault, bind_of_error herror _⟩

end Progress

end Read

/-! ### Records -/

namespace Signature

mutual

/-- The number of types in a type, itself among them. -/
def nodes : Signature → Nat
  | .vector s | .reference s | .mutableReference s => nodes s + 1
  | .instantiation _ ss => nodesAll ss + 1
  | _ => 1

/-- The number of types in all types of a list. -/
def nodesAll : List Signature → Nat
  | [] => 0
  | s :: ss => nodes s + nodesAll ss

end

mutual

/-- Each type in a type has a byte of its own. -/
theorem nodes_le_length : (s : Signature) → nodes s ≤ (encode s).length
  | .vector s | .reference s | .mutableReference s => by
    rw [nodes, encode, List.length_cons]
    exact Nat.succ_le_succ (nodes_le_length s)
  | .instantiation handle ss => by
    have hss := nodesAll_le_length ss
    rw [nodes, encode, List.length_cons, List.length_append, List.length_append]
    omega
  | .bool | .uint _ | .address | .signer | .datatype _ | .parameter _ => by
    simp only [nodes]
    exact List.length_pos_iff.mpr (encode_ne_nil _)

theorem nodesAll_le_length : (ss : List Signature) → nodesAll ss ≤ (encodeAll ss).length
  | [] => Nat.le_refl 0
  | s :: ss => by
    have hs := nodes_le_length s
    have hss := nodesAll_le_length ss
    rw [nodesAll, encodeAll, List.length_append]
    omega

end

end Signature

/-- What a record counts for. -/
def Pool.weight : (p : Pool) → p.Record → Nat
  | .moduleHandles => fun _ => 2
  | .constants => fun c => c.type.nodes + 1 + c.data.length
  | .identifiers => fun name => 1 + Utf8.size name
  | .addresses => fun _ => 32

theorem Uleb128.length_encode_pos (n : Nat) : 0 < (encode n).length := List.length_pos_iff.mpr (encode_ne_nil n)

theorem Pool.weight_le_length (p : Pool) (a : p.Record) : p.weight a ≤ (p.encode a).length := by
  cases p with
  | moduleHandles =>
    have haddress := Uleb128.length_encode_pos a.address.toNat
    have hname := Uleb128.length_encode_pos a.name.toNat
    change 2 ≤ (ModuleHandle.encode a).length
    rw [ModuleHandle.encode, List.length_append]
    omega
  | constants =>
    have htype := a.type.nodes_le_length
    have hlength := Uleb128.length_encode_pos a.data.length
    change a.type.nodes + 1 + a.data.length ≤ (Constant.encode a).length
    rw [Constant.encode, List.length_append, List.length_append]
    omega
  | identifiers =>
    have hlength := Uleb128.length_encode_pos (Utf8.size a)
    change 1 + Utf8.size a ≤ (encodeIdentifier a).length
    rw [encodeIdentifier, List.length_append]
    exact Nat.add_le_add_right hlength _
  | addresses => exact Nat.le_of_eq a.length_bytes.symm

/-! ### Modules -/

def Slot.carriedLength : Slot → Nat
  | .pool _ => 0
  | .carried _ contents => contents.length

namespace Module

/-- What a module counts for: a unit for each identifier, for each type in a constant's type and for each constant's
    length, two for a module handle, 32 for an address, and the bytes of names, of data and of what is carried along. -/
def footprint (m : Module) : Nat :=
  m.identifiers.length + (m.identifiers.map Utf8.size).sum + 2 * m.handles.length + 32 * m.addresses.length +
    (m.constants.map fun c => c.type.nodes + 1 + c.data.length).sum + (m.layout.map Slot.carriedLength).sum

def recordsWeight (m : Module) (p : Pool) : Nat := ((m.records p).map p.weight).sum

theorem footprint_eq (m : Module) : m.footprint = m.recordsWeight .identifiers + m.recordsWeight .moduleHandles +
    m.recordsWeight .addresses + m.recordsWeight .constants + (m.layout.map Slot.carriedLength).sum := by
  have hidentifiers : m.recordsWeight .identifiers = m.identifiers.length + (m.identifiers.map Utf8.size).sum := by
    change (m.identifiers.map fun name => 1 + Utf8.size name).sum = _
    rw [List.sum_map_add, List.map_const', List.sum_replicate_nat, Nat.mul_one]
  have hhandles : m.recordsWeight .moduleHandles = 2 * m.handles.length := by
    change (m.handles.map fun _ => 2).sum = _
    rw [List.map_const', List.sum_replicate_nat, Nat.mul_comm]
  have haddresses : m.recordsWeight .addresses = 32 * m.addresses.length := by
    change (m.addresses.map fun _ => 32).sum = _
    rw [List.map_const', List.sum_replicate_nat, Nat.mul_comm]
  rw [hidentifiers, hhandles, haddresses]
  rfl

/-- The bytes of a table, if it is that of the pool. -/
def poolLength (m : Module) (p : Pool) (slot : Slot) : Nat := if slot = .pool p then (m.encodePool p).length else 0

theorem length_encodeSlot (m : Module) (slot : Slot) : (m.encodeSlot slot).length =
    m.poolLength .identifiers slot + m.poolLength .moduleHandles slot + m.poolLength .addresses slot +
      m.poolLength .constants slot + slot.carriedLength := by
  cases slot with
  | pool p => cases p <;> simp [encodeSlot, poolLength, Slot.carriedLength]
  | carried table contents => simp [encodeSlot, poolLength, Slot.carriedLength]

theorem length_contents_eq (m : Module) : m.contents.length =
    (m.layout.map (m.poolLength .identifiers)).sum + (m.layout.map (m.poolLength .moduleHandles)).sum +
      (m.layout.map (m.poolLength .addresses)).sum + (m.layout.map (m.poolLength .constants)).sum +
      (m.layout.map Slot.carriedLength).sum := by
  rw [contents_eq, List.length_flatMap, List.map_congr_left fun slot _ => m.length_encodeSlot slot]
  simp only [List.sum_map_add]

/-- The records of a pool count for no more than the bytes of its table; without a table there are none. -/
theorem Complete.recordsWeight_le {m : Module} (h : m.Complete) (p : Pool) :
    m.recordsWeight p ≤ (m.layout.map (m.poolLength p)).sum := by
  by_cases hp : .pool p ∈ m.layout
  · calc m.recordsWeight p
        ≤ ((m.records p).map fun a => (p.encode a).length).sum := List.sum_le_sum fun a _ => p.weight_le_length a
      _ = m.poolLength p (.pool p) := by rw [poolLength, if_pos rfl, encodePool_eq, List.length_flatMap]
      _ ≤ (m.layout.map (m.poolLength p)).sum := List.le_sum_of_mem (List.mem_map_of_mem hp)
  · rw [recordsWeight, h.absent p hp]
    exact Nat.zero_le _

theorem Complete.footprint_le {m : Module} (h : m.Complete) : m.footprint ≤ m.contents.length := by
  have hidentifiers := h.recordsWeight_le .identifiers
  have hhandles := h.recordsWeight_le .moduleHandles
  have haddresses := h.recordsWeight_le .addresses
  have hconstants := h.recordsWeight_le .constants
  rw [footprint_eq, length_contents_eq]
  omega

theorem footprint_le_of_decode {bytes : List UInt8} {m : Module} (h : decode bytes = .ok m) :
    m.footprint ≤ bytes.length := by
  obtain ⟨-, hcomplete, ps, -, rfl⟩ := decode_eq_ok_iff.mp h
  have hle := hcomplete.footprint_le
  simp only [spell, body, List.length_append]
  omega

/-- A type, a constant, an identifier and a module handle each take a byte at least where they can be read. So the
    loops that read the arguments of an instantiation and the records of a table end on every input, with no more
    records than there are bytes; and a module that is read counts for no more than its bytes. -/
theorem decode_within_input :
    (Read.Progress Signature.read ∧ Read.Progress Constant.read ∧ Read.Progress readIdentifier ∧
      Read.Progress ModuleHandle.read) ∧
    (∀ levels count, Read.Ends (Signature.readWithin levels) (Read.times (Signature.readWithin levels) count)
      fun ss _ => ss.length = count) ∧
    (Read.Ends readIdentifier (Read.toEnd readIdentifier progress_readIdentifier) (fun _ r => r.rest = []) ∧
      Read.Ends Constant.read (Read.toEnd Constant.read Constant.progress_read) (fun _ r => r.rest = []) ∧
      Read.Ends Address.read (Read.toEnd Address.read Address.progress_read) (fun _ r => r.rest = []) ∧
      Read.Ends ModuleHandle.read (Read.toEnd ModuleHandle.read ModuleHandle.progress_read) fun _ r => r.rest = []) ∧
    ∀ bytes m, decode bytes = .ok m → m.footprint ≤ bytes.length :=
  ⟨⟨Signature.progress_read, Constant.progress_read, progress_readIdentifier, ModuleHandle.progress_read⟩,
    fun levels count => Read.ends_times (Signature.progress_readWithin levels) count,
    ⟨Read.ends_toEnd _, Read.ends_toEnd _, Read.ends_toEnd _, Read.ends_toEnd _⟩,
    fun _ _ h => footprint_le_of_decode h⟩

/-- A module with records in each of its pools, and a table that is carried along. -/
def laden : Module where
  versionWord := 6
  directory := [.carried .metadata, .pool .identifiers, .pool .constants, .pool .addresses, .pool .moduleHandles]
  layout := [.pool .identifiers, .pool .constants, .pool .addresses, .pool .moduleHandles,
    .carried .metadata [9, 9, 9]]
  identifiers := ["papa", ""]
  constants := [⟨.vector (.uint .w8), [1, 0x61]⟩, ⟨.instantiation 300 [.bool, .parameter 0], []⟩]
  addresses := [⟨List.replicate 32 7, by decide⟩]
  handles := [⟨0, 1⟩]
  selfHandle := some 0

def ladenBytes : List UInt8 :=
  [0xA1, 0x1C, 0xEB, 0x0B, 6, 0, 0, 0, 5] ++
    [0x10, 53, 3, 0x07, 0, 6, 0x06, 6, 13, 0x08, 19, 32, 0x01, 51, 2] ++
    [4, 0x70, 0x61, 0x70, 0x61, 0] ++ [10, 2, 2, 1, 0x61] ++ [0x0B, 0xAC, 2, 2, 1, 9, 0, 0] ++
    List.replicate 32 7 ++ [0, 1] ++ [9, 9, 9] ++ [0]

theorem decode_within_input_laden : decode ladenBytes = .ok laden ∧ laden.footprint = 52 ∧ ladenBytes.length = 81 ∧
    laden.footprint ≤ ladenBytes.length :=
  have hdecode : decode ladenBytes = .ok laden := by decide +kernel
  ⟨hdecode, by decide +kernel, by decide, decode_within_input.2.2.2 ladenBytes laden hdecode⟩

end Module

end Stencil
