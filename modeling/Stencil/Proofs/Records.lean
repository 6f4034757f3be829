import Stencil.Module.Decode
import Stencil.Proofs.Signature
import Stencil.Proofs.Value

/-! The records of the pools are read back from their bytes, and a pool from the bytes of all its records. -/

namespace Stencil

theorem length_le_flatMap {α : Type} {encode : α → List UInt8} {a : α} {as : List α} (h : a ∈ as) :
    (encode a).length ≤ (as.flatMap encode).length := by
  rw [List.flatMap_def]
  exact (List.sublist_flatten_of_mem (List.mem_map_of_mem h)).length_le

theorem readsBack_readIdentifier :
    Read.ReadsBack readIdentifier (fun name => Utf8.size name ≤ maxIdentifierLength) encodeIdentifier := by
  refine (Utf8.reads_text (by decide) id .identifierNotText).of_iff fun _ name bytes => ?_
  constructor
  · intro h
    obtain ⟨s, hle, rfl, rfl⟩ := h
    exact ⟨hle, rfl⟩
  · intro h
    obtain ⟨hle, rfl⟩ := h
    exact ⟨name, hle, rfl, rfl⟩

/-- The type and the data of a constant fit the places that a module has for them. -/
def Constant.Fits (c : Constant) : Prop :=
  (c.type.depth ≤ maxTypeDepth ∧ c.type.Narrow) ∧ c.data.length ≤ maxLength

theorem Constant.length_data_le (c : Constant) : c.data.length ≤ c.encode.length := by
  rw [encode, List.length_append]
  omega

theorem Constant.readsBack_read : Read.ReadsBack read Fits encode := by
  have hdata (type : Signature) := (Uleb128.readsBack_read maxLength).bind fun size =>
    (Read.reads_bytes size).map (Constant.mk type)
  refine (Signature.readsBack_read.bind hdata).of_iff fun _ c bytes => ?_
  constructor
  · intro h
    obtain ⟨type, _, htype, ⟨size, _, ⟨hsize, -⟩, ⟨data, ⟨rfl, rfl⟩, rfl⟩, rfl⟩, rfl⟩ := h
    exact ⟨⟨htype, hsize⟩, (List.append_assoc _ _ _).symm⟩
  · intro h
    obtain ⟨⟨htype, hsize⟩, rfl⟩ := h
    have hlt : c.data.length < 2 ^ 64 := Nat.lt_of_le_of_lt hsize (by decide)
    exact ⟨c.type, _, htype, ⟨_, _, ⟨hsize, hlt⟩, ⟨c.data, ⟨rfl, rfl⟩, rfl⟩, rfl⟩, List.append_assoc _ _ _⟩

theorem ModuleHandle.readsBack_read : Read.ReadsBack read (fun _ => True) encode := by
  have hname (address : UInt16) := Uleb128.readsBack_read16.map (ModuleHandle.mk address)
  refine (Uleb128.readsBack_read16.bind hname).of_iff fun _ h bytes => ?_
  constructor
  · intro h'
    obtain ⟨address, _, -, ⟨name, ⟨-, rfl⟩, rfl⟩, rfl⟩ := h'
    exact ⟨trivial, rfl⟩
  · intro h'
    obtain ⟨-, rfl⟩ := h'
    exact ⟨h.address, _, trivial, ⟨h.name, ⟨trivial, rfl⟩, rfl⟩, rfl⟩

end Stencil
