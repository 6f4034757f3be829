import Mathlib.Data.Nat.Bitwise
import Stencil.Bytes.Uleb128
import Stencil.Proofs.Reading

/-! Numbers are read back from the bytes that are written for them: all of fixed width, and those of variable
    length up to the limit of their place. -/

namespace Stencil

/-! ### Fixed width -/

namespace LittleEndian

theorem length_encode (count n : Nat) : (encode count n).length = count := by
  induction count generalizing n with
  | zero => rfl
  | succ count ih => rw [encode, List.length_cons, ih]

theorem value_encode {count n : Nat} (h : n < 256 ^ count) : value (encode count n) = n := by
  induction count generalizing n with
  | zero =>
    rw [Nat.pow_zero] at h
    rw [encode, value]
    omega
  | succ count ih =>
    have hdiv : n / 256 < 256 ^ count := by
      rw [Nat.div_lt_iff_lt_mul (by decide), ← Nat.pow_succ]
      exact h
    have hmod : (UInt8.ofNat (n % 256)).toNat = n % 256 := by
      rw [UInt8.toNat_ofNat']
      omega
    rw [encode, value, ih hdiv, hmod]
    omega

theorem encode_value (bytes : List UInt8) : encode bytes.length (value bytes) = bytes := by
  induction bytes with
  | nil => rfl
  | cons b rest ih =>
    have hb := b.toNat_lt
    have hmod : (b.toNat + 256 * value rest) % 256 = b.toNat := by omega
    have hdiv : (b.toNat + 256 * value rest) / 256 = value rest := by omega
    rw [List.length_cons, encode, value, hmod, hdiv, ih, UInt8.ofNat_toNat]

theorem value_lt (bytes : List UInt8) : value bytes < 256 ^ bytes.length := by
  induction bytes with
  | nil => exact Nat.one_pos
  | cons b rest ih =>
    have hb := b.toNat_lt
    rw [value, List.length_cons, Nat.pow_succ]
    omega

theorem eq_encode_iff {count n : Nat} (h : n < 256 ^ count) {bytes : List UInt8} :
    bytes = encode count n ↔ bytes.length = count ∧ value bytes = n := by
  constructor
  · rintro rfl
    exact ⟨length_encode count n, value_encode h⟩
  · intro h'
    obtain ⟨rfl, rfl⟩ := h'
    exact (encode_value bytes).symm

theorem encode_zero (count : Nat) : encode count 0 = List.replicate count 0 := by
  induction count with
  | zero => rfl
  | succ count ih =>
    rw [encode, Nat.zero_div, ih, List.replicate_succ]
    rfl

/-- Bytes as few as a number needs, filled up to a width, are its bytes of that width. -/
theorem resize_minimal (count n : Nat) : resize count (minimal n) = encode count n := by
  unfold resize
  induction count generalizing n with
  | zero => rfl
  | succ count ih =>
    rw [encode, minimal]
    split
    · rename_i hn
      rw [Nat.mod_eq_of_lt hn, Nat.div_eq_of_lt hn, encode_zero]
      simp [List.rightpad]
    · rw [← ih, List.take_succ_cons]
      simp [List.rightpad]

end LittleEndian

theorem Read.readsBack_word32 :
    Read.ReadsBack Read.word32 (fun _ => True) fun word => LittleEndian.encode 4 word.toNat := by
  refine ((Read.reads_bytes 4).map _).of_iff fun _ word bytes => ?_
  have hword : word.toNat < 256 ^ 4 := word.toNat_lt
  rw [LittleEndian.eq_encode_iff hword]
  constructor
  · intro h
    obtain ⟨_, ⟨hlen, rfl⟩, rfl⟩ := h
    have hlt : LittleEndian.value bytes < 2 ^ 32 := by
      have hlt := LittleEndian.value_lt bytes
      rw [hlen] at hlt
      exact hlt
    refine ⟨trivial, hlen, ?_⟩
    rw [UInt32.toNat_ofNat', Nat.mod_eq_of_lt hlt]
  · intro h
    obtain ⟨-, hlen, hval⟩ := h
    exact ⟨bytes, ⟨hlen, rfl⟩, by rw [hval, UInt32.ofNat_toNat]⟩

/-! ### Variable length -/

namespace Uleb128

/-- Bytes spell a number with seven bits each, the least significant first. All bytes but the last have the
    high bit set, and no group of zeros stands in front of the number. -/
inductive Spells : Nat → List UInt8 → Prop
  | last {b : UInt8} (h : b.toNat < 128) : Spells b.toNat [b]
  | more {b : UInt8} {n : Nat} {rest : List UInt8} (h : 128 ≤ b.toNat) (hn : n ≠ 0) (hrest : Spells n rest) :
    Spells (b.toNat % 128 + 128 * n) (b :: rest)

theorem encode_eq_cons_iff {n : Nat} {b : UInt8} {rest : List UInt8} :
    encode n = b :: rest ↔ (b.toNat < 128 ∧ n = b.toNat ∧ rest = []) ∨
      (128 ≤ b.toNat ∧ ∃ k, k ≠ 0 ∧ n = b.toNat % 128 + 128 * k ∧ rest = encode k) := by
  have hb := b.toNat_lt
  rw [encode]
  by_cases hn : n < 128
  · rw [if_pos hn, List.cons.injEq]
    constructor
    · intro h
      obtain ⟨rfl, rfl⟩ := h
      have htoNat : (UInt8.ofNat n).toNat = n := by
        rw [UInt8.toNat_ofNat']
        omega
      exact Or.inl ⟨by omega, htoNat.symm, rfl⟩
    · intro h
      rcases h with ⟨-, rfl, rfl⟩ | ⟨hge, k, hk, rfl, -⟩
      · exact ⟨UInt8.ofNat_toNat, rfl⟩
      · omega
  · rw [if_neg hn, List.cons.injEq]
    constructor
    · intro h
      obtain ⟨rfl, rfl⟩ := h
      have htoNat : (UInt8.ofNat (n % 128 + 128)).toNat = n % 128 + 128 := by
        rw [UInt8.toNat_ofNat']
        omega
      exact Or.inr ⟨by omega, n / 128, by omega, by omega, rfl⟩
    · intro h
      rcases h with ⟨hlt, rfl, -⟩ | ⟨hge, k, hk, rfl, rfl⟩
      · omega
      · have hmod : (b.toNat % 128 + 128 * k) % 128 + 128 = b.toNat := by omega
        have hdiv : (b.toNat % 128 + 128 * k) / 128 = k := by omega
        rw [hmod, hdiv]
        exact ⟨UInt8.ofNat_toNat, rfl⟩

theorem encode_ne_nil (n : Nat) : encode n ≠ [] := by
  rw [encode]
  split <;> exact List.cons_ne_nil _ _

/-- The spelling of no number begins that of another. -/
theorem encode_append_inj {n k : Nat} {u v : List UInt8} (h : encode n ++ u = encode k ++ v) : n = k ∧ u = v := by
  induction n using Nat.strongRecOn generalizing k with
  | ind n ih =>
    obtain ⟨b, rest, hn⟩ := List.exists_cons_of_ne_nil (encode_ne_nil n)
    obtain ⟨b', rest', hk⟩ := List.exists_cons_of_ne_nil (encode_ne_nil k)
    rw [hn, hk, List.cons_append, List.cons_append] at h
    obtain ⟨rfl, hrest⟩ := List.cons.inj h
    rcases encode_eq_cons_iff.mp hn with ⟨hlast, rfl, rfl⟩ | ⟨hmore, n', hn', rfl, rfl⟩
    · rcases encode_eq_cons_iff.mp hk with ⟨-, rfl, rfl⟩ | ⟨hmore, -⟩
      · exact ⟨rfl, hrest⟩
      · omega
    · rcases encode_eq_cons_iff.mp hk with ⟨hlast, -⟩ | ⟨-, k', -, rfl, rfl⟩
      · omega
      · obtain ⟨rfl, rfl⟩ := ih n' (by omega) hrest
        exact ⟨rfl, rfl⟩

/-- A number has one spelling, the one that is written. -/
theorem spells_iff {n : Nat} {bytes : List UInt8} : Spells n bytes ↔ bytes = encode n := by
  induction bytes generalizing n with
  | nil =>
    constructor
    · intro h
      cases h
    · intro h
      exact absurd h.symm (encode_ne_nil n)
  | cons b rest ih =>
    rw [eq_comm, encode_eq_cons_iff]
    constructor
    · intro h
      cases h with
      | last h => exact Or.inl ⟨h, rfl, rfl⟩
      | more h hn hrest => exact Or.inr ⟨h, _, hn, rfl, ih.mp hrest⟩
    · intro h'
      rcases h' with ⟨h, rfl, rfl⟩ | ⟨h, k, hk, rfl, hrest⟩
      · exact .last h
      · exact .more h hk (ih.mpr hrest)

/-! #### One byte -/

theorem toNat_digit (b : UInt8) : (digit b).toNat = b.toNat % 128 := by
  rw [digit, UInt8.toNat_toUInt64, UInt8.toNat_and]
  exact Nat.and_two_pow_sub_one_eq_mod b.toNat 7

theorem high_eq_zero_iff (b : UInt8) : b &&& 0x80 = 0 ↔ b.toNat < 128 := by
  have hb := b.toNat_lt
  have htest : b.toNat.testBit 7 = decide (b.toNat / 128 % 2 = 1) := Nat.testBit_eq_decide_div_mod_eq
  have hand : (b &&& 0x80).toNat = (b.toNat.testBit 7).toNat * 128 := (UInt8.toNat_and _ _).trans (Nat.and_two_pow _ 7)
  rw [← UInt8.toNat_inj, hand, htest, UInt8.toNat_zero]
  by_cases hlast : b.toNat < 128
  · have hbit : b.toNat / 128 % 2 = 0 := by omega
    simp [hlast, hbit]
  · have hbit : b.toNat / 128 % 2 = 1 := by omega
    simp [hlast, hbit]

/-- What holds of a number while it is read. -/
structure LowBits.Sound (low : LowBits) : Prop where
  value_lt : low.value.toNat < 2 ^ low.shift
  aligned : low.shift % 7 = 0
  shift_le : low.shift ≤ 63

/-- `n` has the bits that have been read and those of `k` above them. There are 64 bits in all, and `k` stands for a
    group of zeros only where it is the first. -/
structure LowBits.Extends (low : LowBits) (k n : Nat) : Prop where
  eq : n = low.value.toNat + k * 2 ^ low.shift
  lt : n < 2 ^ 64
  ne_zero : 0 < low.shift → k ≠ 0

theorem LowBits.sound_start : Sound {} := ⟨Nat.one_pos, rfl, Nat.zero_le 63⟩

theorem LowBits.extends_start_iff {k n : Nat} : Extends {} k n ↔ n = k ∧ n < 2 ^ 64 := by
  have hvalue : UInt64.toNat 0 + k * 2 ^ 0 = k := by
    rw [UInt64.toNat_zero, Nat.pow_zero, Nat.mul_one, Nat.zero_add]
  constructor
  · intro h
    exact ⟨h.eq.trans hvalue, h.lt⟩
  · intro h
    exact ⟨h.1.trans hvalue.symm, h.2, fun h' => absurd h' (Nat.lt_irrefl 0)⟩

namespace LowBits.Sound
variable {low : LowBits} (h : low.Sound)
include h

/-- Seven bits above those that have been read fit into 64 bits, unless they stand above 63 others and are more than
    one. -/
theorem fits_iff {k : Nat} (hk : k < 128) :
    low.value.toNat + k * 2 ^ low.shift < 2 ^ 64 ↔ ¬(low.shift = 63 ∧ 1 < k) := by
  obtain ⟨hvalue, haligned, hle⟩ := h
  by_cases hfull : low.shift = 63
  · rw [hfull] at hvalue ⊢
    omega
  · have hsum : low.value.toNat + k * 2 ^ low.shift < 2 ^ (low.shift + 7) := by
      calc low.value.toNat + k * 2 ^ low.shift
          < (k + 1) * 2 ^ low.shift := by rw [Nat.succ_mul]; omega
        _ ≤ 128 * 2 ^ low.shift := Nat.mul_le_mul_right _ hk
        _ = 2 ^ (low.shift + 7) := by rw [Nat.pow_add, Nat.mul_comm]
    have hpow : 2 ^ (low.shift + 7) ≤ 2 ^ 63 := Nat.pow_le_pow_right (by decide) (by omega)
    exact iff_of_true (by omega) fun h => hfull h.1

/-- The bits of a byte are shifted without loss. -/
theorem toNat_shifted {b : UInt8} (hfit : ¬(low.shift = 63 ∧ 1 < b.toNat % 128)) :
    (digit b <<< UInt64.ofNat low.shift).toNat = b.toNat % 128 * 2 ^ low.shift := by
  have hlt := (h.fits_iff (Nat.mod_lt b.toNat (by decide))).mpr hfit
  have hle := h.shift_le
  have hshift : (UInt64.ofNat low.shift).toNat % 64 = low.shift := by
    rw [UInt64.toNat_ofNat']
    omega
  rw [UInt64.toNat_shiftLeft, toNat_digit, hshift, Nat.shiftLeft_eq]
  exact Nat.mod_eq_of_lt (by omega)

/-- The bits of a byte are joined to those before it without loss. -/
theorem toNat_join {b : UInt8} (hfit : ¬(low.shift = 63 ∧ 1 < b.toNat % 128)) :
    (low.join b).toNat = low.value.toNat + b.toNat % 128 * 2 ^ low.shift := by
  rw [join, UInt64.toNat_or, h.toNat_shifted hfit, Nat.or_comm, Nat.mul_comm,
    ← Nat.two_pow_add_eq_or_of_lt h.value_lt, Nat.add_comm]

theorem more {b : UInt8} (hshift : low.shift < 63) : Sound ⟨low.join b, low.shift + 7⟩ := by
  have hfit : ¬(low.shift = 63 ∧ 1 < b.toNat % 128) := fun hfull => by omega
  have haligned := h.aligned
  refine ⟨?_, by dsimp only; omega, by dsimp only; omega⟩
  have hvalue := h.value_lt
  have hdigit : b.toNat % 128 * 2 ^ low.shift ≤ 127 * 2 ^ low.shift :=
    Nat.mul_le_mul_right _ (Nat.le_of_lt_succ (Nat.mod_lt _ (by decide)))
  dsimp only
  rw [h.toNat_join hfit, Nat.pow_add]
  omega

/-- A last byte is accepted exactly if the number that it makes has 64 bits and its limit allows it. -/
theorem turn_last {b : UInt8} (hlast : b.toNat < 128) (max : Nat) :
    (∃ n, low.turn max b = .ok (.last n) ∧ low.Extends b.toNat n.toNat ∧ n.toNat ≤ max) ∨
    ∃ reason, low.turn max b = .error reason ∧ ∀ n, low.Extends b.toNat n → max < n := by
  have hdigit : (digit b).toNat = b.toNat := (toNat_digit b).trans (Nat.mod_eq_of_lt hlast)
  have hone : 1 < digit b ↔ 1 < b.toNat := by rw [UInt64.lt_iff_toNat_lt, hdigit, UInt64.toNat_one]
  have hzero : digit b = 0 ↔ b.toNat = 0 := by rw [← UInt64.toNat_inj, hdigit, UInt64.toNat_zero]
  unfold turn
  simp only [hone, hzero, if_pos ((high_eq_zero_iff b).mpr hlast)]
  split
  · rename_i hfull
    refine Or.inr ⟨_, rfl, fun n hn => ?_⟩
    exact absurd hfull ((h.fits_iff hlast).mp (hn.eq ▸ hn.lt))
  · rename_i hfit
    have hjoin := h.toNat_join (b := b) (by rwa [Nat.mod_eq_of_lt hlast])
    rw [Nat.mod_eq_of_lt hlast] at hjoin
    split
    · rename_i hpadded
      exact Or.inr ⟨_, rfl, fun n hn => absurd hpadded.2 (hn.ne_zero hpadded.1)⟩
    · rename_i hne
      split
      · rename_i hlarge
        refine Or.inr ⟨_, rfl, fun n hn => ?_⟩
        rwa [hn.eq, ← hjoin]
      · rename_i hle
        exact Or.inl ⟨_, rfl, ⟨hjoin, UInt64.toNat_lt _, fun hpos hnone => hne ⟨hpos, hnone⟩⟩, Nat.le_of_not_lt hle⟩

/-- A byte that is not the last is accepted exactly if there is room for one more. -/
theorem turn_more {b : UInt8} (hmore : 128 ≤ b.toNat) (max : Nat) :
    (∃ low', low.turn max b = .ok (.more low') ∧ low'.Sound ∧
      ∀ k n, low'.Extends k n ↔ low.Extends (b.toNat % 128 + 128 * k) n ∧ k ≠ 0) ∨
    ∃ reason, low.turn max b = .error reason ∧ ∀ k n, low.Extends (b.toNat % 128 + 128 * k) n → k = 0 := by
  have hle := h.shift_le
  have hhigh : ¬b &&& 0x80 = 0 := fun hzero => Nat.not_lt.mpr hmore ((high_eq_zero_iff b).mp hzero)
  unfold turn
  rw [if_neg hhigh]
  by_cases hfull : low.shift = 63
  · have hk (k n : Nat) (hn : low.Extends (b.toNat % 128 + 128 * k) n) : k = 0 := by
      have hlt := hn.lt
      rw [hn.eq, hfull] at hlt
      omega
    right
    split
    · exact ⟨_, rfl, hk⟩
    · rw [if_pos (by omega)]
      exact ⟨_, rfl, hk⟩
  · have hfit : ¬(low.shift = 63 ∧ 1 < b.toNat % 128) := fun h => hfull h.1
    have haligned := h.aligned
    rw [if_neg fun hover => hfull hover.1, if_neg (by omega)]
    refine Or.inl ⟨_, rfl, h.more (by omega), fun k n => ?_⟩
    have hsum : (low.join b).toNat + k * 2 ^ (low.shift + 7) =
        low.value.toNat + (b.toNat % 128 + 128 * k) * 2 ^ low.shift := by
      rw [h.toNat_join hfit, Nat.add_mul, Nat.add_assoc, Nat.pow_add, Nat.mul_comm (2 ^ low.shift), ← Nat.mul_assoc,
        Nat.mul_comm k]
    constructor
    · intro hn
      have hk : k ≠ 0 := hn.ne_zero (Nat.succ_pos _)
      exact ⟨⟨hn.eq.trans hsum, hn.lt, fun _ => by omega⟩, hk⟩
    · intro hn
      obtain ⟨hn, hk⟩ := hn
      exact ⟨hn.eq.trans hsum.symm, hn.lt, fun _ => hk⟩

end LowBits.Sound

/-! #### All bytes -/

theorem reads_readFrom (start max : Nat) {low : LowBits} (h : low.Sound) :
    Read.Reads (readFrom start max low) fun _ n bytes => ∃ k, (low.Extends k n ∧ n ≤ max) ∧ encode k = bytes := by
  induction low using readFrom.induct max with
  | case1 low ih =>
    -- A byte is the first of what `k` is written as, and `k` ends with it or goes on.
    have hbyte (b : UInt8) : Read.Reads (proceed start max (low.turn max b))
        fun _ n rest => ∃ k, (low.Extends k n ∧ n ≤ max) ∧ encode k = b :: rest := by
      simp only [encode_eq_cons_iff]
      by_cases hlast : b.toNat < 128
      · rcases h.turn_last hlast max with ⟨n', hturn, hn', hle⟩ | ⟨reason, hturn, hlarge⟩
        · rw [hturn]
          refine (Read.reads_pure n'.toNat).of_iff fun _ n rest => ?_
          constructor
          · intro hn
            obtain ⟨rfl, rfl⟩ := hn
            exact ⟨b.toNat, ⟨hn', hle⟩, Or.inl ⟨hlast, rfl, rfl⟩⟩
          · intro hn
            obtain ⟨k, ⟨hn, -⟩, ⟨-, rfl, rfl⟩ | ⟨hmore, -⟩⟩ := hn
            · exact ⟨hn.eq.trans hn'.eq.symm, rfl⟩
            · omega
        · rw [hturn]
          refine Read.reads_failAt start reason fun _ n rest hn => ?_
          obtain ⟨k, ⟨hn, hle⟩, ⟨-, rfl, -⟩ | ⟨hmore, -⟩⟩ := hn
          · exact Nat.not_lt.mpr hle (hlarge n hn)
          · omega
      · have hmore := Nat.le_of_not_lt hlast
        rcases h.turn_more hmore max with ⟨low', hturn, hlow', hextends⟩ | ⟨reason, hturn, hfull⟩
        · rw [hturn]
          refine (ih b low' hturn hlow').of_iff fun _ n rest => ?_
          simp only [hextends]
          constructor
          · intro hn
            obtain ⟨k, ⟨⟨hn, hk⟩, hle⟩, rfl⟩ := hn
            exact ⟨_, ⟨hn, hle⟩, Or.inr ⟨hmore, k, hk, rfl, rfl⟩⟩
          · intro hn
            obtain ⟨_, ⟨hn, hle⟩, ⟨hlast', -⟩ | ⟨-, k, hk, rfl, rfl⟩⟩ := hn
            · omega
            · exact ⟨k, ⟨⟨hn, hk⟩, hle⟩, rfl⟩
        · rw [hturn]
          refine Read.reads_failAt start reason fun _ n rest hn => ?_
          obtain ⟨_, ⟨hn, -⟩, ⟨hlast', -⟩ | ⟨-, k, hk, rfl, -⟩⟩ := hn
          · omega
          · exact hk (hfull k n hn)
    rw [readFrom_eq]
    refine (Read.reads_byte.bind hbyte).of_iff fun _ n bytes => ?_
    constructor
    · intro hn
      obtain ⟨b, _, rest, rfl, ⟨k, hk, hencode⟩, rfl⟩ := hn
      exact ⟨k, hk, hencode⟩
    · intro hn
      obtain ⟨k, hk, rfl⟩ := hn
      obtain ⟨b, rest, hencode⟩ := List.exists_cons_of_ne_nil (encode_ne_nil k)
      exact ⟨b, [b], rest, rfl, ⟨k, hk, hencode⟩, hencode⟩

/-- A number up to a limit is read back from its spelling, if it has 64 bits at most. -/
theorem readsBack_read (max : Nat) : Read.ReadsBack (read max) (fun n => n ≤ max ∧ n < 2 ^ 64) encode := by
  refine (Read.Reads.after_offset fun start => reads_readFrom start max LowBits.sound_start).of_iff fun _ n bytes => ?_
  simp only [LowBits.extends_start_iff]
  constructor
  · intro h
    obtain ⟨_, ⟨⟨rfl, hlt⟩, hle⟩, rfl⟩ := h
    exact ⟨⟨hle, hlt⟩, rfl⟩
  · intro h
    obtain ⟨⟨hle, hlt⟩, rfl⟩ := h
    exact ⟨n, ⟨⟨rfl, hlt⟩, hle⟩, rfl⟩

theorem readsBack_read16 : Read.ReadsBack read16 (fun _ => True) fun n => encode n.toNat := by
  refine ((readsBack_read 0xFFFF).map _).of_iff fun _ n bytes => ?_
  constructor
  · intro h
    obtain ⟨k, ⟨⟨hle, -⟩, rfl⟩, rfl⟩ := h
    refine ⟨trivial, ?_⟩
    dsimp only
    rw [UInt16.toNat_ofNat', Nat.mod_eq_of_lt (by omega)]
  · intro h
    obtain ⟨-, rfl⟩ := h
    have hn := n.toNat_lt
    exact ⟨n.toNat, ⟨⟨by omega, by omega⟩, rfl⟩, UInt16.ofNat_toNat.symm⟩

end Uleb128

end Stencil
