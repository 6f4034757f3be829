import Stencil.Proofs.Numeral

/-! Addresses as numbers. An address literal is a hexadecimal numeral of 64 digits at most, with a mark before it or
    without one, and its address has the bytes of the number that it spells. What is shown for the address is the one
    normal form of all literals that spell this number. -/

namespace Stencil
open Numeral

namespace Hex

/-- Halves of bytes spell the number that the bytes spell. -/
theorem ofDigits_halves (bytes : List UInt8) :
    Nat.ofDigits 16 (halves bytes).reverse = LittleEndian.value bytes.reverse := by
  induction bytes using List.reverseRecOn with
  | nil => rfl
  | append_singleton bytes b ih =>
    have hsplit : halves (bytes ++ [b]) = halves bytes ++ [b.toNat / 16, b.toNat % 16] := by simp [halves]
    simp only [hsplit, List.reverse_append, List.reverse_cons, List.reverse_nil, List.nil_append, List.cons_append,
      Nat.ofDigits_cons, ih, LittleEndian.value]
    omega

end Hex

/-! ### Addresses and the numbers that they stand for -/

namespace Address

/-- The number that the bytes of an address spell, the most significant byte first. -/
def number (a : Address) : Nat := LittleEndian.value a.bytes.reverse

theorem reverse_bytes (a : Address) : a.bytes.reverse = LittleEndian.encode addressLength a.number := by
  rw [← a.length_bytes, ← List.length_reverse, number, LittleEndian.encode_value]

theorem number_injective {a b : Address} (h : a.number = b.number) : a = b := by
  have hbytes : a.bytes = b.bytes := List.reverse_injective (by rw [reverse_bytes, reverse_bytes, h])
  cases a
  cases hbytes
  rfl

/-- Every number that has no more bytes than an address is the number of an address. -/
theorem exists_number {n : Nat} (h : n < 256 ^ addressLength) : ∃ a : Address, a.number = n := by
  refine ⟨⟨(LittleEndian.encode addressLength n).reverse, ?_⟩, ?_⟩
  · rw [List.length_reverse, LittleEndian.length_encode]
  · rw [number, List.reverse_reverse, LittleEndian.value_encode h]

theorem ofBytes?_eq_some_iff {bytes : List UInt8} {a : Address} : ofBytes? bytes = some a ↔ bytes = a.bytes := by
  unfold ofBytes?
  constructor
  · intro h
    split at h <;> cases h
    rfl
  · rintro rfl
    rw [dif_pos a.length_bytes]

section Digits
variable {digits : List Char} (hall : ∀ c ∈ digits, (Hex.value? c).isSome = true)
  (hlen : digits.length ≤ 2 * addressLength)
include hall hlen

/-- Digits are read as the address of the number that they spell. -/
theorem ofDigits?_eq_some_iff {a : Address} :
    ofDigits? digits = some a ↔ Nat.ofDigits 16 (digits.map hexValue).reverse = a.number := by
  -- With zeros in front there are as many digits as an address has halves, so the number determines each of them.
  set padded := List.replicate (2 * addressLength - digits.length) 0 ++ digits.map hexValue with hpadded
  have hread : (List.leftpad (2 * addressLength) '0' digits).map Hex.value? = padded.map some := by
    simp only [List.leftpad, hpadded, List.map_append, List.map_replicate, map_value?_eq hall]
    rfl
  have hlength : padded.length = (Hex.halves a.bytes).length := by
    rw [hpadded, List.length_append, List.length_replicate, List.length_map, Hex.length_halves, a.length_bytes]
    omega
  have hlt : ∀ d ∈ padded, d < 16 := by
    simp only [hpadded, List.mem_append, List.mem_replicate]
    rintro d (⟨-, rfl⟩ | hd)
    · decide
    · obtain ⟨c, -, rfl⟩ := List.mem_map.mp hd
      exact hexValue_lt c
  have hnumber : Nat.ofDigits 16 (digits.map hexValue).reverse = Nat.ofDigits 16 padded.reverse := by
    rw [hpadded, List.reverse_append, List.reverse_replicate, Nat.ofDigits_append_replicate_zero]
  calc
    ofDigits? digits = some a ↔ padded.map some = (Hex.halves a.bytes).map some := by
      simp only [ofDigits?, Option.bind_eq_bind, Option.bind_eq_some_iff, ofBytes?_eq_some_iff, exists_eq_right,
        Hex.bytes?_eq_some_iff, hread]
    _ ↔ padded = Hex.halves a.bytes := List.map_inj_right fun _ _ => Option.some.inj
    _ ↔ Nat.ofDigits 16 padded.reverse = Nat.ofDigits 16 (Hex.halves a.bytes).reverse := by
      refine ⟨fun h => congrArg (Nat.ofDigits 16 ·.reverse) h, fun h => List.reverse_injective ?_⟩
      exact Nat.ofDigits_inj_of_len_eq (by decide) (by simpa using hlength) (by simpa using hlt)
        (by simpa using fun _ => Hex.lt_of_mem_halves) h
    _ ↔ Nat.ofDigits 16 (digits.map hexValue).reverse = a.number := by rw [hnumber, Hex.ofDigits_halves, number]

/-- No more than 64 digits are always read: what they spell is not too large for an address. -/
theorem exists_ofDigits? :
    ∃ a, ofDigits? digits = some a ∧ a.number = Nat.ofDigits 16 (digits.map hexValue).reverse := by
  have hlt := Nat.ofDigits_lt_base_pow_length (b := 16) (l := (digits.map hexValue).reverse) (by decide)
    (by simpa using fun c _ => hexValue_lt c)
  rw [List.length_reverse, List.length_map] at hlt
  obtain ⟨a, ha⟩ := exists_number (hlt.trans_le (Nat.pow_le_pow_right (by decide) hlen))
  exact ⟨a, (ofDigits?_eq_some_iff hall hlen).mpr ha.symm, ha⟩

end Digits

/-- An address literal is read, too long, or no numeral. -/
theorem parse_cases (s : String) :
    (∃ a, (dropMark s.toList).length ≤ 64 ∧ Spells 16 (dropMark s.toList) a.number ∧ parse s = .ok a) ∨
      (64 < (dropMark s.toList).length ∧ (∃ n, Spells 16 (dropMark s.toList) n) ∧
        parse s = .error (.outOfRange .address s)) ∨
      (∀ n, ¬Spells 16 (dropMark s.toList) n) ∧ parse s = .error (.invalid (.value .address) s) := by
  unfold parse
  dsimp only
  generalize dropMark s.toList = digits
  have hexists : (∃ n, Spells 16 digits n) ↔ _ := exists_spells_iff isDigit_sixteen_iff
  split
  · rename_i hform
    exact Or.inr (Or.inr ⟨fun n hn => hexists.mp ⟨n, hn⟩ hform, rfl⟩)
  · rename_i hform
    obtain ⟨n, hn⟩ := hexists.mpr hform
    obtain ⟨⟨-, hall⟩, rfl⟩ := (spells_iff isDigit_sixteen_iff).mp hn
    split
    · rename_i hlong
      exact Or.inr (Or.inl ⟨hlong, ⟨_, hn⟩, rfl⟩)
    · rename_i hlong
      obtain ⟨a, hread, ha⟩ := exists_ofDigits? hall (Nat.le_of_not_lt hlong)
      rw [hread]
      exact Or.inl ⟨a, Nat.le_of_not_lt hlong, ha ▸ hn, rfl⟩

theorem exists_parse_iff {s : String} {n : Nat} : (∃ a, parse s = .ok a ∧ a.number = n) ↔
    (dropMark s.toList).length ≤ 64 ∧ Spells 16 (dropMark s.toList) n := by
  rcases parse_cases s with ⟨a, hlen, ha, heq⟩ | ⟨hlen, -, heq⟩ | ⟨hnone, heq⟩
  · rw [heq]
    constructor
    · rintro ⟨_, h, rfl⟩
      cases h
      exact ⟨hlen, ha⟩
    · rintro ⟨-, hn⟩
      exact ⟨a, rfl, ha.unique isDigit_sixteen_iff hn⟩
  · exact iff_of_false (by simp [heq]) fun h => Nat.not_le.mpr hlen h.1
  · exact iff_of_false (by simp [heq]) fun h => hnone n h.2

theorem parse_outOfRange_iff {s : String} : parse s = .error (.outOfRange .address s) ↔
    64 < (dropMark s.toList).length ∧ ∃ n, Spells 16 (dropMark s.toList) n := by
  rcases parse_cases s with ⟨a, hlen, -, heq⟩ | ⟨hlen, hn, heq⟩ | ⟨hnone, heq⟩
  · exact iff_of_false (by simp [heq]) fun h => Nat.not_le.mpr h.1 hlen
  · exact iff_of_true heq ⟨hlen, hn⟩
  · refine iff_of_false (by simp [heq]) ?_
    rintro ⟨-, n, hn⟩
    exact hnone n hn

theorem parse_invalid_iff {s : String} :
    parse s = .error (.invalid (.value .address) s) ↔ ∀ n, ¬Spells 16 (dropMark s.toList) n := by
  rcases parse_cases s with ⟨a, -, ha, heq⟩ | ⟨-, ⟨n, hn⟩, heq⟩ | ⟨hnone, heq⟩
  · exact iff_of_false (by simp [heq]) fun hnone => hnone _ ha
  · exact iff_of_false (by simp [heq]) fun hnone => hnone n hn
  · exact iff_of_true heq hnone

/-! ### The normal form of a literal -/

/-- A text spells an address in full: with the mark and 64 digits, letters in lower case. -/
def Full (text : String) : Prop :=
  ∃ ds : List Nat, ds.length = 64 ∧ (∀ d ∈ ds, d < 16) ∧ text = "0x" ++ String.ofList (ds.map Nat.digitChar)

theorem full_display (a : Address) : Full a.display := by
  refine ⟨Hex.halves a.bytes, ?_, fun _ => Hex.lt_of_mem_halves, ?_⟩
  · rw [Hex.length_halves, a.length_bytes]
    rfl
  · have hdigit (d : Nat) (hd : d ∈ Hex.halves a.bytes) : Hex.digit d = d.digitChar := by
      have hlt := Hex.lt_of_mem_halves hd
      interval_cases d <;> rfl
    rw [display, Hex.encode, Hex.digits_eq_map_halves, List.map_congr_left hdigit]

theorem normalize_eq_ok_iff {s t : String} : normalize s = .ok t ↔ ∃ a, parse s = .ok a ∧ a.display = t := by
  unfold normalize
  cases parse s <;> simp [Except.map]

theorem exists_normalize_iff {s : String} : (∃ t, normalize s = .ok t) ↔ ∃ a, parse s = .ok a := by
  simp only [normalize_eq_ok_iff]
  constructor
  · rintro ⟨_, a, ha, -⟩
    exact ⟨a, ha⟩
  · rintro ⟨a, ha⟩
    exact ⟨_, a, ha, rfl⟩

theorem normalize_eq_error_iff {s : String} {e : LiteralError} : normalize s = .error e ↔ parse s = .error e := by
  unfold normalize
  cases parse s <;> simp [Except.map]

theorem display_injective {a b : Address} (h : a.display = b.display) : a = b := by
  have hparse := parse_display a
  rw [h, parse_display] at hparse
  exact (Except.ok.inj hparse).symm

/-- Literals have one normal form exactly if they spell one number. -/
theorem normalize_eq_iff {s s' t t' : String} (h : normalize s = .ok t) (h' : normalize s' = .ok t') :
    t = t' ↔ ∃ n, Spells 16 (dropMark s.toList) n ∧ Spells 16 (dropMark s'.toList) n := by
  obtain ⟨a, ha, rfl⟩ := normalize_eq_ok_iff.mp h
  obtain ⟨a', ha', rfl⟩ := normalize_eq_ok_iff.mp h'
  obtain ⟨-, hspells⟩ := exists_parse_iff.mp ⟨a, ha, rfl⟩
  obtain ⟨-, hspells'⟩ := exists_parse_iff.mp ⟨a', ha', rfl⟩
  constructor
  · intro heq
    obtain rfl := display_injective heq
    exact ⟨a.number, hspells, hspells'⟩
  · rintro ⟨n, hn, hn'⟩
    have hnumber : a.number = a'.number :=
      (hspells.unique isDigit_sixteen_iff hn).trans (hn'.unique isDigit_sixteen_iff hspells')
    rw [number_injective hnumber]

/-- Address literals are the hexadecimal numerals of up to 64 digits, and each has the address of its number; longer
    numerals are out of range, and all other texts are refused for their form. What a literal is normalized to is
    spelled in full and its own normal form, and it is the same for two literals exactly if they spell one number. -/
theorem normalize_spec (s : String) :
    (∀ n, (∃ a, parse s = .ok a ∧ a.number = n) ↔
      (dropMark s.toList).length ≤ 64 ∧ Spells 16 (dropMark s.toList) n) ∧
    (parse s = .error (.outOfRange .address s) ↔
      64 < (dropMark s.toList).length ∧ ∃ n, Spells 16 (dropMark s.toList) n) ∧
    (parse s = .error (.invalid (.value .address) s) ↔ ∀ n, ¬Spells 16 (dropMark s.toList) n) ∧
    (∀ e, normalize s = .error e ↔ parse s = .error e) ∧
    ∀ t, normalize s = .ok t → Full t ∧ normalize t = .ok t ∧ ∀ s' t', normalize s' = .ok t' →
      (t = t' ↔ ∃ n, Spells 16 (dropMark s.toList) n ∧ Spells 16 (dropMark s'.toList) n) := by
  refine ⟨fun _ => exists_parse_iff, parse_outOfRange_iff, parse_invalid_iff, fun _ => normalize_eq_error_iff, ?_⟩
  intro t ht
  obtain ⟨a, -, rfl⟩ := normalize_eq_ok_iff.mp ht
  refine ⟨full_display a, ?_, fun s' t' ht' => normalize_eq_iff ht ht'⟩
  exact normalize_eq_ok_iff.mpr ⟨a, parse_display a, rfl⟩

example : normalize "0X0aB" = normalize "ab" := by decide +kernel

end Address

end Stencil
