import Stencil.Proofs.Number

/-! A text is read from its own bytes and from no others. The bytes of a character are told apart by their
    number: the shape of the first byte gives it, and the ranges of the second byte rule out longer spellings
    than needed, surrogates and numbers that are no character's. -/

namespace Stencil.Utf8
open String

theorem isTail_iff {b : UInt8} : isTail b = true ↔ 0x80 ≤ b.toNat ∧ b.toNat ≤ 0xBF := by
  simp only [isTail, Bool.and_eq_true, decide_eq_true_eq, UInt8.le_iff_toNat_le]
  exact Iff.rfl

theorem isSecond_iff {a b : UInt8} : isSecond a b = true ↔ (0x80 ≤ b.toNat ∧ b.toNat ≤ 0xBF) ∧
    (a.toNat = 0xE0 → 0xA0 ≤ b.toNat) ∧ (a.toNat = 0xED → b.toNat ≤ 0x9F) ∧
      (a.toNat = 0xF0 → 0x90 ≤ b.toNat) ∧ (a.toNat = 0xF4 → b.toNat ≤ 0x8F) := by
  have heq (k : UInt8) : a = k ↔ a.toNat = k.toNat := UInt8.toNat_inj.symm
  simp only [isSecond, Bool.and_eq_true, decide_eq_true_eq, UInt8.le_iff_toNat_le, heq, UInt8.reduceToNat]
  split <;> split <;> (try split) <;> (try split) <;> simp only [UInt8.reduceToNat] <;> omega

/-! ### Characters -/

theorem eq_ofNat_iff {c : Char} {n : Nat} (h : n.isValidChar) : c = Char.ofNat n ↔ c.val.toNat = n := by
  have hn : (Char.ofNat n).val.toNat = n := by
    rw [Char.ofNat, dif_pos h]
    rfl
  constructor
  · rintro rfl
    exact hn
  · intro hc
    exact Char.ext (UInt32.toNat_inj.mp (hc.trans hn.symm))

theorem and_eq_ofNat_iff {p : Prop} {c : Char} {n : Nat} (h : p → n.isValidChar) :
    p ∧ c = Char.ofNat n ↔ p ∧ c.val.toNat = n :=
  and_congr_right fun hp => eq_ofNat_iff (h hp)

theorem byte_eq_iff {n : Nat} (h : n < 256) {b : UInt8} : UInt8.ofNat n = b ↔ b.toNat = n := by
  rw [← UInt8.toNat_inj, UInt8.toNat_ofNat', Nat.mod_eq_of_lt h, eq_comm]

theorem encodeChar_eq_one_iff {c : Char} {a : UInt8} :
    utf8EncodeChar c = [a] ↔ a.toNat < 0x80 ∧ c = join 128 a [] := by
  have hjoin : join 128 a [] = Char.ofNat (a.toNat % 128) := rfl
  rw [hjoin, eq_ofNat_iff (Or.inl (by omega))]
  unfold utf8EncodeChar
  dsimp only
  split
  · rw [List.cons.injEq, byte_eq_iff (by omega)]
    simp only [and_true]
    omega
  · split
    · simp only [List.cons.injEq, reduceCtorEq, and_false, false_iff]
      omega
    · split <;> simp only [List.cons.injEq, reduceCtorEq, and_false, false_iff] <;> omega

theorem encodeChar_eq_two_iff {c : Char} {a b : UInt8} : utf8EncodeChar c = [a, b] ↔
    ((0xC2 ≤ a.toNat ∧ a.toNat < 0xE0) ∧ isSecond a b = true) ∧ c = join 32 a [b] := by
  have hjoin : join 32 a [b] = Char.ofNat (a.toNat % 32 * 64 + b.toNat % 64) := rfl
  rw [isSecond_iff, hjoin, eq_ofNat_iff (Or.inl (by omega))]
  unfold utf8EncodeChar
  dsimp only
  split
  · simp only [List.cons.injEq, reduceCtorEq, and_false, false_iff]
    omega
  · split
    · rw [List.cons.injEq, List.cons.injEq, byte_eq_iff (by omega), byte_eq_iff (by omega)]
      simp only [and_true]
      omega
    · split <;> simp only [List.cons.injEq, reduceCtorEq, and_false, false_iff] <;> omega

/-- The ranges of the first two bytes leave out surrogates, so the joined number is a character's. -/
theorem encodeChar_eq_three_iff {c : Char} {a b d : UInt8} : utf8EncodeChar c = [a, b, d] ↔
    ((0xE0 ≤ a.toNat ∧ a.toNat < 0xF0) ∧ isSecond a b = true ∧ isTail d = true) ∧ c = join 16 a [b, d] := by
  have hjoin : join 16 a [b, d] = Char.ofNat ((a.toNat % 16 * 64 + b.toNat % 64) * 64 + d.toNat % 64) := rfl
  have hc : c.val.toNat < 0xD800 ∨ 0xDFFF < c.val.toNat ∧ c.val.toNat < 0x110000 := c.valid
  rw [isSecond_iff, isTail_iff, hjoin, and_eq_ofNat_iff fun h => by
    show _ < 0xD800 ∨ 0xDFFF < _ ∧ _ < 0x110000
    omega]
  unfold utf8EncodeChar
  dsimp only
  split
  · simp only [List.cons.injEq, reduceCtorEq, and_false, false_iff]
    omega
  · split
    · simp only [List.cons.injEq, reduceCtorEq, and_false, false_iff]
      omega
    · split
      · rw [List.cons.injEq, List.cons.injEq, List.cons.injEq, byte_eq_iff (by omega), byte_eq_iff (by omega),
          byte_eq_iff (by omega)]
        simp only [and_true]
        omega
      · simp only [List.cons.injEq, reduceCtorEq, and_false, false_iff]
        omega

/-- The ranges of the first two bytes leave out numbers above all characters'. -/
theorem encodeChar_eq_four_iff {c : Char} {a b d e : UInt8} : utf8EncodeChar c = [a, b, d, e] ↔
    ((0xF0 ≤ a.toNat ∧ a.toNat < 0xF5) ∧ isSecond a b = true ∧ isTail d = true ∧ isTail e = true) ∧
      c = join 8 a [b, d, e] := by
  have hjoin : join 8 a [b, d, e] =
    Char.ofNat (((a.toNat % 8 * 64 + b.toNat % 64) * 64 + d.toNat % 64) * 64 + e.toNat % 64) := rfl
  have hc : c.val.toNat < 0xD800 ∨ 0xDFFF < c.val.toNat ∧ c.val.toNat < 0x110000 := c.valid
  rw [isSecond_iff, isTail_iff, isTail_iff, hjoin, and_eq_ofNat_iff fun h => by
    show _ < 0xD800 ∨ 0xDFFF < _ ∧ _ < 0x110000
    omega]
  unfold utf8EncodeChar
  dsimp only
  split
  · simp only [List.cons.injEq, reduceCtorEq, and_false, false_iff]
    omega
  · split
    · simp only [List.cons.injEq, reduceCtorEq, and_false, false_iff]
      omega
    · split
      · simp only [List.cons.injEq, reduceCtorEq, and_false, false_iff]
        omega
      · rw [List.cons.injEq, List.cons.injEq, List.cons.injEq, List.cons.injEq, byte_eq_iff (by omega),
          byte_eq_iff (by omega), byte_eq_iff (by omega), byte_eq_iff (by omega)]
        simp only [and_true]
        omega

/-! ### Texts -/

theorem map_cons_eq_ok_iff {c : Char} {x : Except Fault (List Char)} {cs : List Char} :
    x.map (c :: ·) = .ok cs ↔ ∃ cs', x = .ok cs' ∧ cs = c :: cs' := by
  cases x <;> simp [Except.map, eq_comm]

theorem decodeFrom_sound {index : Nat} {bytes : List UInt8} {cs : List Char}
    (h : decodeFrom index bytes = .ok cs) : bytes = cs.flatMap utf8EncodeChar := by
  fun_induction decodeFrom index bytes generalizing cs
  case case1 =>
    cases h
    rfl
  case case2 index a r ha ih =>
    obtain ⟨cs', hcs, rfl⟩ := map_cons_eq_ok_iff.mp h
    have ha : a.toNat < 0x80 := UInt8.lt_iff_toNat_lt.mp ha
    rw [List.flatMap_cons, encodeChar_eq_one_iff.mpr ⟨ha, rfl⟩, ih hcs]
    rfl
  case case6 index a ha hlead b r hb ha' ih =>
    obtain ⟨cs', hcs, rfl⟩ := map_cons_eq_ok_iff.mp h
    simp only [Bool.or_eq_true, decide_eq_true_eq, UInt8.lt_iff_toNat_lt, UInt8.reduceToNat] at hlead ha'
    simp only [Bool.not_eq_true, Bool.not_eq_false'] at hb
    rw [List.flatMap_cons, encodeChar_eq_two_iff.mpr ⟨⟨by omega, hb⟩, rfl⟩, ih hcs]
    rfl
  case case9 index a ha hlead b hb ha' d r hd ha'' ih =>
    obtain ⟨cs', hcs, rfl⟩ := map_cons_eq_ok_iff.mp h
    simp only [UInt8.lt_iff_toNat_lt, UInt8.reduceToNat] at ha' ha''
    simp only [Bool.not_eq_true, Bool.not_eq_false'] at hb hd
    rw [List.flatMap_cons, encodeChar_eq_three_iff.mpr ⟨⟨by omega, hb, hd⟩, rfl⟩, ih hcs]
    rfl
  case case12 index a ha hlead b hb ha' d hd ha'' e r he ih =>
    obtain ⟨cs', hcs, rfl⟩ := map_cons_eq_ok_iff.mp h
    simp only [Bool.or_eq_true, decide_eq_true_eq, UInt8.lt_iff_toNat_lt, UInt8.reduceToNat] at hlead ha''
    simp only [Bool.not_eq_true, Bool.not_eq_false'] at hb hd he
    rw [List.flatMap_cons, encodeChar_eq_four_iff.mpr ⟨⟨by omega, hb, hd, he⟩, rfl⟩, ih hcs]
    rfl
  all_goals cases h

theorem encodeChar_cases (c : Char) : (∃ a, utf8EncodeChar c = [a]) ∨ (∃ a b, utf8EncodeChar c = [a, b]) ∨
    (∃ a b d, utf8EncodeChar c = [a, b, d]) ∨ ∃ a b d e, utf8EncodeChar c = [a, b, d, e] := by
  unfold utf8EncodeChar
  dsimp only
  split
  · exact Or.inl ⟨_, rfl⟩
  · split
    · exact Or.inr (Or.inl ⟨_, _, rfl⟩)
    · split
      · exact Or.inr (Or.inr (Or.inl ⟨_, _, _, rfl⟩))
      · exact Or.inr (Or.inr (Or.inr ⟨_, _, _, _, rfl⟩))

theorem not_lt_of_le {a b : UInt8} (h : b.toNat ≤ a.toNat) : ¬a < b := by
  rw [UInt8.lt_iff_toNat_lt]
  omega

theorem isLead_of_range {a : UInt8} (h : 0xC2 ≤ a.toNat ∧ a.toNat < 0xF5) :
    ¬a < 0x80 ∧ ¬(decide (a < 0xC2) || decide (0xF4 < a)) = true := by
  simp only [Bool.or_eq_true, decide_eq_true_eq, UInt8.lt_iff_toNat_lt, UInt8.reduceToNat]
  omega

theorem decodeFrom_complete (index : Nat) (cs : List Char) :
    decodeFrom index (cs.flatMap utf8EncodeChar) = .ok cs := by
  induction cs generalizing index with
  | nil => rw [List.flatMap_nil, decodeFrom]
  | cons c cs ih =>
    rw [List.flatMap_cons]
    -- A first byte below `80` stands alone; of the others, its range tells how many follow.
    rcases encodeChar_cases c with ⟨a, h⟩ | ⟨a, b, h⟩ | ⟨a, b, d, h⟩ | ⟨a, b, d, e, h⟩
    · obtain ⟨ha, hc⟩ := encodeChar_eq_one_iff.mp h
      have hlow : a < 0x80 := UInt8.lt_iff_toNat_lt.mpr ha
      rw [h, List.singleton_append]
      unfold decodeFrom
      rw [if_pos hlow]
      exact map_cons_eq_ok_iff.mpr ⟨cs, ih _, by rw [hc]⟩
    · obtain ⟨⟨ha, hb⟩, hc⟩ := encodeChar_eq_two_iff.mp h
      obtain ⟨hlow, hlead⟩ := isLead_of_range ⟨ha.1, by omega⟩
      have htwo : a < 0xE0 := UInt8.lt_iff_toNat_lt.mpr ha.2
      rw [h]
      unfold decodeFrom
      simp only [List.cons_append, List.nil_append, hlow, hlead, hb, htwo, ↓reduceIte, Bool.not_true,
        Bool.false_eq_true]
      exact map_cons_eq_ok_iff.mpr ⟨cs, ih _, by rw [hc]⟩
    · obtain ⟨⟨ha, hb, hd⟩, hc⟩ := encodeChar_eq_three_iff.mp h
      obtain ⟨hlow, hlead⟩ := isLead_of_range (a := a) (by omega)
      have htwo : ¬a < 0xE0 := not_lt_of_le ha.1
      have hthree : a < 0xF0 := UInt8.lt_iff_toNat_lt.mpr ha.2
      rw [h]
      unfold decodeFrom
      simp only [List.cons_append, List.nil_append, hlow, hlead, hb, hd, htwo, hthree, ↓reduceIte, Bool.not_true,
        Bool.false_eq_true]
      exact map_cons_eq_ok_iff.mpr ⟨cs, ih _, by rw [hc]⟩
    · obtain ⟨⟨ha, hb, hd, he⟩, hc⟩ := encodeChar_eq_four_iff.mp h
      obtain ⟨hlow, hlead⟩ := isLead_of_range ⟨by omega, ha.2⟩
      have htwo : ¬a < 0xE0 := not_lt_of_le (Nat.le_trans (by decide) ha.1)
      have hthree : ¬a < 0xF0 := not_lt_of_le ha.1
      rw [h]
      unfold decodeFrom
      simp only [List.cons_append, List.nil_append, hlow, hlead, hb, hd, he, htwo, hthree, ↓reduceIte, Bool.not_true,
        Bool.false_eq_true]
      exact map_cons_eq_ok_iff.mpr ⟨cs, ih _, by rw [hc]⟩

/-- A text is read from the bytes that are written for it and from no others. -/
theorem decode_eq_ok_iff {bytes : List UInt8} {s : String} : decode bytes = .ok s ↔ bytes = encode s := by
  unfold decode encode
  constructor
  · intro h
    cases hcs : decodeFrom 0 bytes with
    | error fault =>
      rw [hcs] at h
      cases h
    | ok cs =>
      rw [hcs] at h
      cases h
      rw [String.toList_ofList]
      exact decodeFrom_sound hcs
  · rintro rfl
    rw [decodeFrom_complete]
    exact congrArg Except.ok String.ofList_toList

/-- A text after its length is read back from the two, up to the limit of its place. -/
theorem reads_text {α : Type} {limit : Nat} (hlimit : limit < 2 ^ 64) (f : String → α) (reason : Fault → Reason) :
    Read.Reads (do
        let size ← Uleb128.read limit
        let start ← Read.offset
        match decode (← Read.bytes size) with
        | .ok s => return f s
        | .error fault => Read.failAt start (reason fault))
      fun _ a bytes => ∃ s, size s ≤ limit ∧ a = f s ∧ bytes = Uleb128.encode (size s) ++ encode s := by
  have hdecode (start : Nat) (text : List UInt8) : Read.Reads
      (match decode text with
       | .ok s => pure (f s)
       | .error fault => Read.failAt start (reason fault))
      fun _ a bytes => ∃ s, text = encode s ∧ a = f s ∧ bytes = [] := by
    cases htext : decode text with
    | ok s =>
      have hs := decode_eq_ok_iff.mp htext
      refine (Read.reads_pure (f s)).of_iff fun _ a bytes => ?_
      constructor
      · intro h
        obtain ⟨rfl, rfl⟩ := h
        exact ⟨s, hs, rfl, rfl⟩
      · intro h
        obtain ⟨s', hs', rfl, rfl⟩ := h
        rw [decode_eq_ok_iff.mpr hs'] at htext
        cases htext
        exact ⟨rfl, rfl⟩
    | error fault =>
      refine Read.reads_failAt start (reason fault) fun _ a bytes h => ?_
      obtain ⟨s, hs, -⟩ := h
      rw [decode_eq_ok_iff.mpr hs] at htext
      cases htext
  have hbody (count : Nat) := Read.Reads.after_offset fun start => (Read.reads_bytes count).bind (hdecode start)
  refine ((Uleb128.readsBack_read limit).bind hbody).of_iff fun _ a bytes => ?_
  constructor
  · intro h
    obtain ⟨_, _, ⟨hle, -⟩, ⟨_, _, _, ⟨hlen, rfl⟩, ⟨s, rfl, rfl, rfl⟩, rfl⟩, rfl⟩ := h
    obtain rfl : size s = _ := hlen
    exact ⟨s, hle, rfl, by rw [List.append_nil]⟩
  · intro h
    obtain ⟨s, hle, rfl, rfl⟩ := h
    exact ⟨size s, encode s, ⟨hle, by omega⟩, ⟨encode s, encode s, [], ⟨rfl, rfl⟩, ⟨s, rfl, rfl, rfl⟩,
      (List.append_nil _).symm⟩, rfl⟩

end Stencil.Utf8
