import Stencil.Bytes.Hex
import Mathlib.Data.List.Basic
import Mathlib.Tactic.SplitIfs

/-! Bytes as pairs of hexadecimal digits. A digit stands for half a byte; digits are read as bytes exactly if they stand
    for the halves of these bytes, so bytes come back from their own digits. -/

namespace Stencil.Hex

theorem value?_digit {n : Nat} (h : n < 16) : value? (digit n) = some n := by
  revert n
  decide

theorem value?_lt {c : Char} {n : Nat} (h : value? c = some n) : n < 16 := by
  unfold value? at h
  split_ifs at h with hdigit hlower hupper <;> cases h
  · obtain ⟨hge, hle⟩ : 48 ≤ c.toNat ∧ c.toNat ≤ 57 := hdigit
    omega
  · obtain ⟨hge, hle⟩ : 97 ≤ c.toNat ∧ c.toNat ≤ 102 := hlower
    omega
  · obtain ⟨hge, hle⟩ : 65 ≤ c.toNat ∧ c.toNat ≤ 70 := hupper
    omega

/-- The halves of bytes, the high half of each byte first. -/
def halves (bytes : List UInt8) : List Nat := bytes.flatMap fun b => [b.toNat / 16, b.toNat % 16]

theorem halves_cons (b : UInt8) (bytes : List UInt8) :
    halves (b :: bytes) = b.toNat / 16 :: b.toNat % 16 :: halves bytes := rfl

theorem length_halves (bytes : List UInt8) : (halves bytes).length = 2 * bytes.length := by
  induction bytes with
  | nil => rfl
  | cons b bytes ih =>
    rw [halves_cons, List.length_cons, List.length_cons, ih, List.length_cons]
    omega

theorem lt_of_mem_halves {bytes : List UInt8} {d : Nat} (h : d ∈ halves bytes) : d < 16 := by
  obtain ⟨b, -, hd⟩ := List.mem_flatMap.mp h
  have hb := b.toNat_lt
  simp only [List.mem_cons, List.not_mem_nil, or_false] at hd
  omega

theorem ofNat_halves (b : UInt8) : UInt8.ofNat (b.toNat / 16 * 16 + b.toNat % 16) = b := by
  have hhalves : b.toNat / 16 * 16 + b.toNat % 16 = b.toNat := by omega
  rw [hhalves, UInt8.ofNat_toNat]

theorem digits_eq_map_halves (bytes : List UInt8) : digits bytes = (halves bytes).map digit := by
  simp only [digits, halves, List.map_flatMap]
  rfl

theorem length_digits (bytes : List UInt8) : (digits bytes).length = 2 * bytes.length := by
  rw [digits_eq_map_halves, List.length_map, length_halves]

theorem map_value?_digits (bytes : List UInt8) : (digits bytes).map value? = (halves bytes).map some := by
  rw [digits_eq_map_halves, List.map_map]
  exact List.map_congr_left fun d hd => value?_digit (lt_of_mem_halves hd)

theorem value?_of_mem_digits {bytes : List UInt8} {c : Char} (h : c ∈ digits bytes) : (value? c).isSome := by
  have hvalue : value? c ∈ (halves bytes).map some := map_value?_digits bytes ▸ List.mem_map_of_mem h
  obtain ⟨d, -, hd⟩ := List.mem_map.mp hvalue
  rw [← hd]
  rfl

theorem bytes?_cons_cons {h l : Char} {rest : List Char} {bytes : List UInt8} :
    bytes? (h :: l :: rest) = some bytes ↔ ∃ x y tail, value? h = some x ∧ value? l = some y ∧
      bytes? rest = some tail ∧ UInt8.ofNat (x * 16 + y) :: tail = bytes := by
  simp [bytes?, Option.bind_eq_some_iff]

/-- Digits are read as bytes exactly if they stand for the halves of the bytes. -/
theorem bytes?_eq_some_iff {cs : List Char} {bytes : List UInt8} :
    bytes? cs = some bytes ↔ cs.map value? = (halves bytes).map some := by
  induction cs using bytes?.induct generalizing bytes with
  | case1 => cases bytes <;> simp [bytes?, halves]
  | case2 c => cases bytes <;> simp [bytes?, halves]
  | case3 h l rest ih =>
    rw [bytes?_cons_cons]
    constructor
    · rintro ⟨x, y, tail, hx, hy, htail, rfl⟩
      have hxlt := value?_lt hx
      have hylt := value?_lt hy
      have htoNat : (UInt8.ofNat (x * 16 + y)).toNat = x * 16 + y := by
        rw [UInt8.toNat_ofNat']
        omega
      have hhigh : (x * 16 + y) / 16 = x := by omega
      have hlow : (x * 16 + y) % 16 = y := by omega
      simp only [halves_cons, htoNat, hhigh, hlow, List.map_cons, hx, hy, ih.mp htail]
    · intro heq
      cases bytes with
      | nil => cases heq
      | cons b bytes =>
        simp only [halves_cons, List.map_cons, List.cons.injEq] at heq
        obtain ⟨hhigh, hlow, hrest⟩ := heq
        exact ⟨_, _, bytes, hhigh, hlow, ih.mpr hrest, congrArg (· :: bytes) (ofNat_halves b)⟩

/-- The digits of bytes are read as those bytes. -/
theorem bytes?_digits (bytes : List UInt8) : bytes? (digits bytes) = some bytes :=
  bytes?_eq_some_iff.mpr (map_value?_digits bytes)

end Stencil.Hex
