import Stencil.Value.Basic
import Stencil.Proofs.Utf8

/-! Values and their bytes correspond one to one: bytes are read as a value of a type exactly if they are what
    is written for a value of that type, and for no string longer than a length field can say. -/

namespace Stencil

theorem Address.readsBack_read : Read.ReadsBack Address.read (fun _ => True) Address.bytes := by
  intro r a r'
  obtain ⟨rest, start⟩ := r
  unfold Address.read
  dsimp only
  constructor
  · intro h
    split at h
    · rename_i hlen
      cases h
      refine ⟨_, ⟨trivial, rfl⟩, (List.take_append_drop addressLength rest).symm, ?_⟩
      dsimp only
      rw [hlen]
    · cases h
  · intro h'
    obtain ⟨_, ⟨-, rfl⟩, hrest, hoffset⟩ := h'
    obtain ⟨rest', offset'⟩ := r'
    dsimp only at hrest hoffset
    subst hrest hoffset
    have htake : (a.bytes ++ rest').take addressLength = a.bytes := by
      rw [← a.length_bytes, List.take_left]
    have hdrop : (a.bytes ++ rest').drop addressLength = rest' := by
      rw [← a.length_bytes, List.drop_left]
    simp only [htake, hdrop, a.length_bytes, ↓reduceDIte]

namespace Value

/-- A string has no more bytes than a length field can say. -/
def Short : Value → Prop
  | .string s => Utf8.size s ≤ maxLength
  | _ => True

/-- The widest integers have bytes of fixed count too. -/
theorem encodeWord_eq (w : Width) (n : BitVec w.bits) : encodeWord w n = LittleEndian.encode w.bytes n.toNat := by
  cases w with
  | w256 => exact LittleEndian.resize_minimal _ _
  | _ => rfl

theorem readsBack_readWord (w : Width) : Read.ReadsBack (readWord w) (fun b => b.length = w.bytes) id := by
  cases w with
  | w8 =>
    refine (Read.reads_byte.map _).of_iff fun _ b bytes => ?_
    constructor
    · intro h
      obtain ⟨a, rfl, rfl⟩ := h
      exact ⟨rfl, rfl⟩
    · intro h
      obtain ⟨hlen, rfl⟩ := h
      obtain ⟨a, rfl⟩ := List.length_eq_one_iff.mp hlen
      exact ⟨a, rfl, rfl⟩
  | _ => exact Read.reads_bytes _

theorem reads_truth (start : Nat) (b : UInt8) : Read.Reads
    (match b with
     | 0 => pure (.bool false)
     | 1 => pure (.bool true)
     | other => Read.failAt start (.invalidBool other))
    fun _ (v : Value) rest => (v.type = .bool ∧ v.Short) ∧ v.encode = b :: rest := by
  split
  case h_1 | h_2 =>
    refine (Read.reads_pure _).of_iff fun _ v rest => ?_
    cases v with
    | bool t => cases t <;> simp [encode, type, Short]
    | _ => simp [type]
  case h_3 hzero hone =>
    refine Read.reads_failAt start _ fun _ v rest h => ?_
    obtain ⟨⟨hv, -⟩, heq⟩ := h
    cases v with
    | bool t => cases t <;> obtain ⟨rfl, -⟩ := List.cons.inj heq <;> contradiction
    | _ => cases hv

theorem readsBack_read (type : ValueType) :
    Read.ReadsBack (read type) (fun v => v.type = type ∧ v.Short) encode := by
  cases type with
  | bool =>
    refine Read.Reads.after_offset fun start => Read.ReadsBack.of_byte ?_ (reads_truth start)
    rintro v ⟨hv, -⟩
    cases v with
    | bool t => exact List.cons_ne_nil _ _
    | _ => cases hv
  | uint w =>
    have hcount : 256 ^ w.bytes = 2 ^ w.bits := by
      rw [Width.bits, Nat.pow_mul]
    refine ((readsBack_readWord w).map _).of_iff fun _ v bytes => ?_
    constructor
    · intro h
      obtain ⟨word, ⟨hlen, heq⟩, rfl⟩ := h
      have hlt : LittleEndian.value word < 2 ^ w.bits := by
        rw [← hcount, ← hlen]
        exact LittleEndian.value_lt word
      refine ⟨⟨rfl, trivial⟩, ?_⟩
      rw [heq, encode, encodeWord_eq, BitVec.toNat_ofNat, Nat.mod_eq_of_lt hlt, ← hlen, LittleEndian.encode_value]
      rfl
    · intro h
      obtain ⟨⟨hv, -⟩, rfl⟩ := h
      cases v with
      | uint w' n =>
        cases hv
        have hn : n.toNat < 256 ^ w.bytes := hcount ▸ n.isLt
        refine ⟨_, ⟨LittleEndian.length_encode w.bytes n.toNat, encodeWord_eq w n⟩, ?_⟩
        rw [LittleEndian.value_encode hn, BitVec.ofNat_toNat, BitVec.setWidth_eq]
      | _ => cases hv
  | address =>
    refine (Address.readsBack_read.map _).of_iff fun _ v bytes => ?_
    constructor
    · intro h
      obtain ⟨a, ⟨-, rfl⟩, rfl⟩ := h
      exact ⟨⟨rfl, trivial⟩, rfl⟩
    · intro h
      obtain ⟨⟨hv, -⟩, rfl⟩ := h
      cases v with
      | address a => exact ⟨a, ⟨trivial, rfl⟩, rfl⟩
      | _ => cases hv
  | string =>
    refine (Utf8.reads_text (by decide) Value.string .stringNotText).of_iff fun _ v bytes => ?_
    constructor
    · intro h
      obtain ⟨s, hle, rfl, rfl⟩ := h
      exact ⟨⟨rfl, hle⟩, rfl⟩
    · intro h
      obtain ⟨⟨hv, hshort⟩, rfl⟩ := h
      cases v with
      | string s => exact ⟨s, hshort, rfl, rfl⟩
      | _ => cases hv

/-- Bytes are a value of a type exactly if they are what is written for it. -/
theorem decode_eq_ok_iff {type : ValueType} {bytes : List UInt8} {v : Value} :
    decode type bytes = .ok v ↔ (v.type = type ∧ v.Short) ∧ bytes = v.encode := by
  have hall := (readsBack_read type).bind_all fun _ v _ _ => Read.readsAll_finish "constant value" v
  unfold decode
  rw [hall.value_eq_ok_iff]
  constructor
  · intro h
    obtain ⟨_, _, _, hv, ⟨rfl, rfl⟩, heq⟩ := h
    rw [List.append_nil] at heq
    exact ⟨hv.1, heq.trans hv.2⟩
  · intro hv
    exact ⟨v, bytes, [], hv, ⟨rfl, rfl⟩, (List.append_nil bytes).symm⟩

end Value

end Stencil
