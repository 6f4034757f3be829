import Mathlib.Data.Nat.Digits.Defs
import Stencil.Proofs.Number

/-! A number is read from its shortest spelling and from no other bytes, wherever they stand and whatever follows. The
    loop that reads it puts bits together in 64-bit words, and after each byte it holds exactly the number that the
    bytes so far spell. It comes to an end within ten bytes, also where it fails. -/

namespace Stencil

/-- Where a step leaves a reader, whether it succeeds or fails. -/
def Read.left {α : Type} (x : Read α) (r : Reader) : Reader :=
  match x r with
  | .ok _ r' | .error _ r' => r'

namespace Uleb128

/-! ### Spellings -/

/-- The number that the low seven bits of bytes spell, the least significant first, however long it is. -/
def number (bytes : List UInt8) : Nat := Nat.ofDigits 128 (bytes.map fun b => b.toNat % 128)

@[simp]
theorem number_nil : number [] = 0 := rfl

theorem number_cons (b : UInt8) (bytes : List UInt8) : number (b :: bytes) = b.toNat % 128 + 128 * number bytes :=
  Nat.ofDigits_cons

theorem number_concat (bytes : List UInt8) (b : UInt8) :
    number (bytes ++ [b]) = number bytes + b.toNat % 128 * 2 ^ (7 * bytes.length) := by
  rw [number, List.map_append, Nat.ofDigits_append, List.length_map, List.map_singleton, Nat.ofDigits_singleton,
    Nat.pow_mul, Nat.mul_comm]
  rfl

theorem number_lt (bytes : List UInt8) : number bytes < 2 ^ (7 * bytes.length) := by
  have hlt := Nat.ofDigits_lt_base_pow_length (b := 128) (l := bytes.map fun b => b.toNat % 128) (by decide) (by
    intro digit hdigit
    obtain ⟨b, -, rfl⟩ := List.mem_map.mp hdigit
    exact Nat.mod_lt _ (by decide))
  rw [Nat.pow_mul]
  rwa [List.length_map] at hlt

theorem number_encode (n : Nat) : number (encode n) = n := by
  induction n using Nat.strongRecOn with
  | ind n ih =>
    obtain ⟨b, rest, hencode⟩ := List.exists_cons_of_ne_nil (encode_ne_nil n)
    rw [hencode, number_cons]
    rcases encode_eq_cons_iff.mp hencode with ⟨hlast, rfl, rfl⟩ | ⟨-, k, hk, rfl, rfl⟩
    · rw [number_nil]
      omega
    · rw [ih k (by omega)]

/-- No bytes that spell a number are fewer than those that are written for it. -/
theorem length_encode_le {bytes : List UInt8} (h : bytes ≠ []) : (encode (number bytes)).length ≤ bytes.length := by
  induction bytes with
  | nil => exact absurd rfl h
  | cons b rest ih =>
    rw [number_cons, encode, List.length_cons]
    split
    · exact Nat.le_add_left 1 rest.length
    · rename_i hlarge
      have hdiv : (b.toNat % 128 + 128 * number rest) / 128 = number rest := by omega
      have hrest : rest ≠ [] := by
        rintro rfl
        rw [number_nil] at hlarge
        omega
      rw [List.length_cons, hdiv]
      exact Nat.succ_le_succ (ih hrest)

/-! ### The loop -/

namespace LowBits

/-- What has been read after bytes none of which is the number's last, unless one of them is refused. -/
def after (max : Nat) (low : LowBits) : List UInt8 → Option LowBits
  | [] => some low
  | b :: bytes =>
    match low.turn max b with
    | .ok (.more low') => after max low' bytes
    | .ok (.last _) | .error _ => none

theorem after_cons_eq_some_iff {max : Nat} {low low' : LowBits} {b : UInt8} {bytes : List UInt8} :
    low.after max (b :: bytes) = some low' ↔
      ∃ low₁, low.turn max b = .ok (.more low₁) ∧ low₁.after max bytes = some low' := by
  rw [after]
  cases low.turn max b with
  | error reason => simp
  | ok t => cases t <;> simp

/-- What is held after `bytes` is the number that they spell, with seven bits for each of them. -/
structure Holds (low : LowBits) (bytes : List UInt8) : Prop where
  shift_eq : low.shift = 7 * bytes.length
  shift_le : low.shift ≤ 63
  value_eq : low.value.toNat = number bytes

end LowBits

/-- All bits that have been read when a byte has been taken. -/
def Turn.value : Turn → UInt64
  | .last n => n
  | .more low => low.value

namespace LowBits

theorem holds_start : Holds {} [] := ⟨rfl, Nat.zero_le 63, rfl⟩

section Holds
variable {low : LowBits} {bytes : List UInt8} (h : low.Holds bytes)
include h

theorem Holds.sound : low.Sound := by
  refine ⟨?_, ?_, h.shift_le⟩
  · rw [h.value_eq, h.shift_eq]
    exact number_lt bytes
  · rw [h.shift_eq]
    exact Nat.mul_mod_right 7 _

/-- A byte that is not refused is shifted and joined to those before it without loss. -/
theorem Holds.turn {max : Nat} {b : UInt8} {t : Turn} (hturn : low.turn max b = .ok t) :
    (digit b <<< UInt64.ofNat low.shift).toNat = (digit b).toNat * 2 ^ low.shift ∧
      (low.join b).toNat = low.value.toNat + (digit b <<< UInt64.ofNat low.shift).toNat ∧
      t.value.toNat = number (bytes ++ [b]) := by
  obtain ⟨hfit, ht⟩ := eq_of_turn hturn
  rw [UInt64.lt_iff_toNat_lt, toNat_digit, UInt64.toNat_one] at hfit
  have hvalue : t.value = low.join b := by
    rcases ht with rfl | ⟨rfl, -⟩ <;> rfl
  rw [hvalue, h.sound.toNat_join hfit, h.sound.toNat_shifted hfit, toNat_digit, number_concat, ← h.value_eq,
    ← h.shift_eq]
  exact ⟨rfl, rfl, rfl⟩

theorem Holds.more {max : Nat} {b : UInt8} {low' : LowBits} (hturn : low.turn max b = .ok (.more low')) :
    low'.Holds (bytes ++ [b]) := by
  obtain ⟨hshift, hle⟩ := shift_of_turn hturn
  refine ⟨?_, hle, (h.turn hturn).2.2⟩
  rw [hshift, h.shift_eq, List.length_append, List.length_singleton, Nat.mul_succ]

/-- What is held stays exact from one byte to the next. -/
theorem Holds.after {max : Nat} {more : List UInt8} {low' : LowBits} (hafter : low.after max more = some low') :
    low'.Holds (bytes ++ more) := by
  induction more generalizing low bytes with
  | nil =>
    cases hafter
    rwa [List.append_nil]
  | cons b more ih =>
    obtain ⟨low₁, hturn, hafter⟩ := after_cons_eq_some_iff.mp hafter
    rw [List.append_cons]
    exact ih (h.more hturn) hafter

end Holds

end LowBits

theorem readFrom_cons (start max : Nat) (low : LowBits) (b : UInt8) (rest : List UInt8) (offset : Nat) :
    readFrom start max low ⟨b :: rest, offset⟩ = proceed start max (low.turn max b) ⟨rest, offset + 1⟩ := by
  rw [readFrom_eq, Read.bind_of_ok (rfl : Read.byte ⟨b :: rest, offset⟩ = .ok b ⟨rest, offset + 1⟩)]

/-- The loop comes by `bytes` to what is held after them. -/
theorem readFrom_of_after {max : Nat} {low low' : LowBits} {bytes : List UInt8} (h : low.after max bytes = some low')
    (start : Nat) (rest : List UInt8) (offset : Nat) :
    readFrom start max low ⟨bytes ++ rest, offset⟩ = readFrom start max low' ⟨rest, offset + bytes.length⟩ := by
  induction bytes generalizing low offset with
  | nil =>
    cases h
    rfl
  | cons b bytes ih =>
    obtain ⟨low₁, hturn, hafter⟩ := LowBits.after_cons_eq_some_iff.mp h
    have hrest := ih hafter (offset + 1)
    rw [Nat.add_right_comm, Nat.add_assoc] at hrest
    rw [List.cons_append, readFrom_cons, hturn, List.length_cons]
    exact hrest

/-- Each byte takes seven bits of the 70 for which there are turns, so the loop is at its end after ten at most. -/
theorem exists_left_readFrom (start max : Nat) {low : LowBits} (hshift : low.shift ≤ 63) (r : Reader) :
    ∃ bytes, 7 * bytes.length + low.shift ≤ 70 ∧ r.Consumes bytes ((readFrom start max low).left r) := by
  induction low using readFrom.induct max generalizing r with
  | case1 low ih =>
    obtain ⟨rest, offset⟩ := r
    cases rest with
    | nil =>
      refine ⟨[], by rw [List.length_nil]; omega, Reader.consumes_nil.mpr ?_⟩
      rw [Read.left, readFrom_eq]
      rfl
    | cons b rest =>
      have hone : 7 * [b].length + low.shift ≤ 70 := by
        rw [List.length_singleton]
        omega
      rw [Read.left, readFrom_cons]
      cases hturn : low.turn max b with
      | error reason => exact ⟨[b], hone, rfl, rfl⟩
      | ok t =>
        cases t with
        | last n => exact ⟨[b], hone, rfl, rfl⟩
        | more low' =>
          obtain ⟨hshift', hle⟩ := LowBits.shift_of_turn hturn
          obtain ⟨bytes, hlen, hconsumes⟩ := ih b low' hturn hle ⟨rest, offset + 1⟩
          refine ⟨b :: bytes, by rw [List.length_cons]; omega, ?_⟩
          exact Reader.consumes_append (u := [b]).mpr ⟨⟨rest, offset + 1⟩, ⟨rfl, rfl⟩, hconsumes⟩

theorem exists_left_read (max : Nat) (r : Reader) :
    ∃ bytes, bytes.length ≤ 10 ∧ r.Consumes bytes ((read max).left r) := by
  obtain ⟨bytes, hlen, hconsumes⟩ := exists_left_readFrom r.offset max LowBits.holds_start.shift_le r
  exact ⟨bytes, by dsimp only at hlen; omega, hconsumes⟩

/-! ### Reading -/

theorem read_of_encode {max n : Nat} (hlt : n < 2 ^ 64) (hle : n ≤ max) (rest : List UInt8) (start : Nat) :
    read max ⟨encode n ++ rest, start⟩ = .ok n ⟨rest, start + (encode n).length⟩ :=
  (readsBack_read max _ n _).mpr ⟨encode n, ⟨⟨hle, hlt⟩, rfl⟩, rfl, rfl⟩

theorem read_of_encode_of_lt {max n : Nat} (hlt : max < n) (rest : List UInt8) (start : Nat) :
    ∃ fault r', read max ⟨encode n ++ rest, start⟩ = .error fault r' := by
  cases hread : read max ⟨encode n ++ rest, start⟩ with
  | error fault r' => exact ⟨fault, r', rfl⟩
  | ok k r' =>
    obtain ⟨_, ⟨⟨hle, -⟩, rfl⟩, hrest, -⟩ := (readsBack_read max _ k r').mp hread
    obtain ⟨rfl, -⟩ := encode_append_inj hrest
    exact absurd hle (Nat.not_le.mpr hlt)

theorem length_le_of_read {max n : Nat} {r r' : Reader} (h : read max r = .ok n r') : (encode n).length ≤ 10 := by
  obtain ⟨bytes, hlen, hconsumes⟩ := exists_left_read max r
  obtain ⟨_, ⟨-, rfl⟩, -, hoffset⟩ := (readsBack_read max r n r').mp h
  have hoffset' := hconsumes.2
  rw [Read.left, h] at hoffset'
  dsimp only at hoffset'
  omega

/-- A number of 64 bits is read from its spelling up to the limit, and what follows is left; above the limit reading
    fails. What is read is within the limit, and the bytes that are taken are its spelling: ten bytes at most, and no
    fewer bytes spell the number. Wherever the loop stands after some bytes, it holds exactly the number that they
    spell, and a byte that is not refused is shifted and joined to it without loss. Whatever the input is, reading
    takes ten bytes at most. -/
theorem read_canonical (max : Nat) :
    (∀ n rest start, n < 2 ^ 64 → n ≤ max →
      read max ⟨encode n ++ rest, start⟩ = .ok n ⟨rest, start + (encode n).length⟩) ∧
    (∀ n rest start, max < n → ∃ fault r', read max ⟨encode n ++ rest, start⟩ = .error fault r') ∧
    (∀ r n r', read max r = .ok n r' → n ≤ max ∧ n < 2 ^ 64 ∧ r.Consumes (encode n) r' ∧
      (encode n).length ≤ 10 ∧ number (encode n) = n ∧
      ∀ bytes, bytes ≠ [] → number bytes = n → (encode n).length ≤ bytes.length) ∧
    (∀ bytes low, LowBits.after max {} bytes = some low →
      (∀ rest start, read max ⟨bytes ++ rest, start⟩ = readFrom start max low ⟨rest, start + bytes.length⟩) ∧
      low.Holds bytes ∧
      ∀ b t, low.turn max b = .ok t →
        (digit b <<< UInt64.ofNat low.shift).toNat = (digit b).toNat * 2 ^ low.shift ∧
        (low.join b).toNat = low.value.toNat + (digit b <<< UInt64.ofNat low.shift).toNat ∧
        t.value.toNat = number (bytes ++ [b])) ∧
    ∀ r : Reader, ∃ bytes, bytes.length ≤ 10 ∧ r.Consumes bytes ((read max).left r) := by
  refine ⟨fun n rest start hlt hle => read_of_encode hlt hle rest start,
    fun n rest start hlt => read_of_encode_of_lt hlt rest start, ?_, ?_, exists_left_read max⟩
  · intro r n r' hread
    obtain ⟨_, ⟨⟨hle, hlt⟩, rfl⟩, hconsumes⟩ := (readsBack_read max r n r').mp hread
    refine ⟨hle, hlt, hconsumes, length_le_of_read hread, number_encode n, ?_⟩
    rintro bytes hne rfl
    exact length_encode_le hne
  · intro bytes low hafter
    have hholds : low.Holds bytes := LowBits.holds_start.after hafter
    exact ⟨fun rest start => readFrom_of_after hafter start rest start, hholds, fun b t hturn => hholds.turn hturn⟩

/-- Nine bytes of the largest number of 64 bits, which leave room for one bit. -/
def nineFull : List UInt8 := List.replicate 9 0xFF

/-- The largest number of 64 bits takes ten bytes, the last of which adds the bit above 63 others. A number of three
    bytes is refused where its limit allows 16 bits only. -/
theorem read_longest :
    (2 ^ 64 - 1 < 2 ^ 64 ∧ read (2 ^ 64 - 1) ⟨encode (2 ^ 64 - 1) ++ [0x80], 3⟩ =
      .ok (2 ^ 64 - 1) ⟨[0x80], 3 + (encode (2 ^ 64 - 1)).length⟩ ∧ (encode (2 ^ 64 - 1)).length ≤ 10) ∧
    (0xFFFF < 70000 ∧ ∃ fault r', read 0xFFFF ⟨encode 70000 ++ [5], 0⟩ = .error fault r') ∧
    LowBits.after (2 ^ 64 - 1) {} nineFull = some ⟨0x7FFFFFFFFFFFFFFF, 63⟩ ∧
    LowBits.turn (2 ^ 64 - 1) ⟨0x7FFFFFFFFFFFFFFF, 63⟩ 1 = .ok (.last 0xFFFFFFFFFFFFFFFF) ∧
    (Turn.last 0xFFFFFFFFFFFFFFFF).value.toNat = number (nineFull ++ [1]) := by
  have hlimit : 2 ^ 64 - 1 < 2 ^ 64 := by decide
  have hread := (read_canonical (2 ^ 64 - 1)).1 (2 ^ 64 - 1) [0x80] 3 hlimit (Nat.le_refl _)
  have hafter : LowBits.after (2 ^ 64 - 1) {} nineFull = some ⟨0x7FFFFFFFFFFFFFFF, 63⟩ := by decide +kernel
  have hturn : LowBits.turn (2 ^ 64 - 1) ⟨0x7FFFFFFFFFFFFFFF, 63⟩ 1 = .ok (.last 0xFFFFFFFFFFFFFFFF) := by decide +kernel
  exact ⟨⟨hlimit, hread, ((read_canonical _).2.2.1 _ _ _ hread).2.2.2.1⟩,
    ⟨by decide, (read_canonical 0xFFFF).2.1 70000 [5] 0 (by decide)⟩,
    hafter, hturn, (((read_canonical _).2.2.2.1 _ _ hafter).2.2 1 _ hturn).2.2⟩

end Uleb128

end Stencil
