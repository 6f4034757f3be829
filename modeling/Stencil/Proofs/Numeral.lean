import Stencil.Proofs.Literal
import Mathlib.Data.List.Forall2
import Mathlib.Data.Nat.Digits.Lemmas
import Mathlib.Tactic.IntervalCases

/-! Numerals, the spellings of numbers in decimal and hexadecimal digits. An integer literal is a decimal numeral: it
    gives the number that the numeral spells, or is out of range from the first power of two on that the width cannot
    hold, and a text that is no numeral is no literal. -/

namespace Stencil

/-! ### Digits and what they spell -/

namespace Numeral

/-- `c` is the digit of a base up to 16 that stands for `d`. Letters stand for the same in either case. -/
def IsDigit (base : Nat) (c : Char) (d : Nat) : Prop := d < base ∧ (c = d.digitChar ∨ c = d.digitChar.toUpper)

/-- Digits, one at least, have the value `n` together, the most significant digit first. Zeros may stand in front. -/
def Spells (base : Nat) (cs : List Char) (n : Nat) : Prop :=
  cs ≠ [] ∧ ∃ ds, List.Forall₂ (IsDigit base) cs ds ∧ Nat.ofDigits base ds.reverse = n

theorem eq_ofNat_of_toNat {c : Char} {n : Nat} (h : c.toNat = n) : c = Char.ofNat n := by
  rw [← h, Char.ofNat_toNat]

theorem isDigit_ten_iff (c : Char) (d : Nat) : IsDigit 10 c d ↔ c.isDigit = true ∧ d = c.toNat - 48 := by
  constructor
  · rintro ⟨hd, rfl | rfl⟩ <;> interval_cases d <;> decide
  · rintro ⟨hc, rfl⟩
    obtain ⟨hge, hle⟩ : 48 ≤ c.toNat ∧ c.toNat ≤ 57 := Char.isDigit_iff_toNat.mp hc
    refine ⟨by omega, Or.inl ?_⟩
    interval_cases hn : c.toNat <;> exact eq_ofNat_of_toNat hn

theorem isDigit_sixteen_iff_value? {c : Char} {d : Nat} : IsDigit 16 c d ↔ Hex.value? c = some d := by
  constructor
  · rintro ⟨hd, rfl | rfl⟩ <;> interval_cases d <;> decide
  · intro h
    unfold Hex.value? at h
    split_ifs at h with hdigit hlower hupper <;> cases h
    · obtain ⟨hge, hle⟩ : 48 ≤ c.toNat ∧ c.toNat ≤ 57 := hdigit
      refine ⟨by omega, Or.inl ?_⟩
      interval_cases hn : c.toNat <;> exact eq_ofNat_of_toNat hn
    · obtain ⟨hge, hle⟩ : 97 ≤ c.toNat ∧ c.toNat ≤ 102 := hlower
      refine ⟨by omega, Or.inl ?_⟩
      interval_cases hn : c.toNat <;> exact eq_ofNat_of_toNat hn
    · obtain ⟨hge, hle⟩ : 65 ≤ c.toNat ∧ c.toNat ≤ 70 := hupper
      refine ⟨by omega, Or.inr ?_⟩
      interval_cases hn : c.toNat <;> exact eq_ofNat_of_toNat hn

/-- The number that a hexadecimal digit stands for, and zero for all other characters. -/
def hexValue (c : Char) : Nat := (Hex.value? c).getD 0

theorem isDigit_sixteen_iff (c : Char) (d : Nat) :
    IsDigit 16 c d ↔ (Hex.value? c).isSome = true ∧ d = hexValue c := by
  rw [isDigit_sixteen_iff_value?, hexValue]
  cases Hex.value? c <;> simp [eq_comm]

theorem hexValue_lt (c : Char) : hexValue c < 16 := by
  unfold hexValue
  cases hc : Hex.value? c with
  | none => decide
  | some n => exact Hex.value?_lt hc

theorem map_value?_eq {cs : List Char} (h : ∀ c ∈ cs, (Hex.value? c).isSome = true) :
    cs.map Hex.value? = (cs.map hexValue).map some := by
  rw [List.map_map, List.map_inj_left]
  intro c hc
  obtain ⟨n, hn⟩ := Option.isSome_iff_exists.mp (h c hc)
  simp [hexValue, hn]

section Base
variable {base : Nat} {p : Char → Bool} {f : Char → Nat} {cs : List Char} {n : Nat}
  (h : ∀ c d, IsDigit base c d ↔ p c = true ∧ d = f c)
include h

/-- What digits spell, if one function says which characters are digits and another what they stand for. -/
theorem spells_iff : Spells base cs n ↔
    (cs ≠ [] ∧ ∀ c ∈ cs, p c = true) ∧ Nat.ofDigits base (cs.map f).reverse = n := by
  have hdigits (ds : List Nat) : List.Forall₂ (IsDigit base) cs ds ↔ (∀ c ∈ cs, p c = true) ∧ cs.map f = ds := by
    rw [funext₂ fun c d => propext (h c d), List.forall₂_and_left, ← List.forall₂_eq_eq_eq, List.forall₂_map_left_iff]
    simp only [eq_comm]
  simp only [Spells, hdigits, and_assoc, exists_and_left, exists_eq_left']

theorem exists_spells_iff : (∃ n, Spells base cs n) ↔ ¬(cs.isEmpty || !cs.all p) = true := by
  simp only [spells_iff h, exists_and_left, exists_eq', and_true]
  simp

theorem Spells.unique {n' : Nat} (hn : Spells base cs n) (hn' : Spells base cs n') : n = n' :=
  ((spells_iff h).mp hn).2.symm.trans ((spells_iff h).mp hn').2

end Base

theorem ofDigits_ten (cs : List Char) :
    Nat.ofDigits 10 (cs.map fun c => c.toNat - 48).reverse = Nat.ofDigitChars 10 cs 0 := by
  rw [Nat.ofDigits_eq_foldr, List.foldr_reverse, List.foldl_map]
  simp [Nat.ofDigitChars, Nat.add_comm]

end Numeral

/-! ### Integer literals -/

namespace Value
open Numeral

/-- An integer literal is read, too large for its width, or no numeral. -/
theorem parse_uint_cases (w : Width) (s : String) :
    (∃ n : BitVec w.bits, Spells 10 s.toList n.toNat ∧ parse (.uint w) s = .ok (.uint w n)) ∨
      (∃ n, Spells 10 s.toList n ∧ 2 ^ w.bits ≤ n ∧ parse (.uint w) s = .error (.outOfRange (.uint w) s)) ∨
      (∀ n, ¬Spells 10 s.toList n) ∧ parse (.uint w) s = .error (.invalid (.value (.uint w)) s) := by
  have hexists : (∃ n, Spells 10 s.toList n) ↔ _ := exists_spells_iff isDigit_ten_iff
  rw [parse, parseUint_eq]
  split
  · rename_i hform
    exact Or.inr (Or.inr ⟨fun n hn => hexists.mp ⟨n, hn⟩ hform, rfl⟩)
  · rename_i hform
    obtain ⟨n, hn⟩ := hexists.mpr hform
    obtain rfl := (ofDigits_ten _).symm.trans ((spells_iff isDigit_ten_iff).mp hn).2
    split
    · rename_i hlong
      exact Or.inr (Or.inl ⟨_, hn, hlong, rfl⟩)
    · rename_i hlong
      refine Or.inl ⟨_, ?_, rfl⟩
      rwa [BitVec.toNat_ofNat, Nat.mod_eq_of_lt (Nat.lt_of_not_le hlong)]

section Literal
variable {w : Width} {s : String}

theorem parse_uint_eq_ok_iff {n : BitVec w.bits} :
    parse (.uint w) s = .ok (.uint w n) ↔ Spells 10 s.toList n.toNat := by
  rcases parse_uint_cases w s with ⟨m, hm, heq⟩ | ⟨m, hm, hlong, heq⟩ | ⟨hnone, heq⟩
  · rw [heq]
    constructor
    · intro h
      cases h
      exact hm
    · intro hn
      rw [BitVec.eq_of_toNat_eq (hm.unique isDigit_ten_iff hn)]
  · refine iff_of_false (by simp [heq]) fun hn => Nat.not_le.mpr n.isLt ?_
    exact hm.unique isDigit_ten_iff hn ▸ hlong
  · exact iff_of_false (by simp [heq]) (hnone n.toNat)

theorem parse_uint_outOfRange_iff :
    parse (.uint w) s = .error (.outOfRange (.uint w) s) ↔ ∃ n, Spells 10 s.toList n ∧ 2 ^ w.bits ≤ n := by
  rcases parse_uint_cases w s with ⟨m, hm, heq⟩ | ⟨m, hm, hlong, heq⟩ | ⟨hnone, heq⟩
  · refine iff_of_false (by simp [heq]) ?_
    rintro ⟨n, hn, hlong⟩
    exact Nat.not_le.mpr m.isLt (hn.unique isDigit_ten_iff hm ▸ hlong)
  · exact iff_of_true heq ⟨m, hm, hlong⟩
  · refine iff_of_false (by simp [heq]) ?_
    rintro ⟨n, hn, -⟩
    exact hnone n hn

theorem parse_uint_invalid_iff :
    parse (.uint w) s = .error (.invalid (.value (.uint w)) s) ↔ ∀ n, ¬Spells 10 s.toList n := by
  rcases parse_uint_cases w s with ⟨m, hm, heq⟩ | ⟨m, hm, -, heq⟩ | ⟨hnone, heq⟩
  · exact iff_of_false (by simp [heq]) fun hnone => hnone m.toNat hm
  · exact iff_of_false (by simp [heq]) fun hnone => hnone m hm
  · exact iff_of_true heq hnone

end Literal

/-- An integer literal gives the number that its decimal digits spell if the width can hold it and is out of range if
    not; what is no run of decimal digits is no integer literal. -/
theorem parse_uint_spec (w : Width) (s : String) :
    (∀ n : BitVec w.bits, parse (.uint w) s = .ok (.uint w n) ↔ Spells 10 s.toList n.toNat) ∧
      (parse (.uint w) s = .error (.outOfRange (.uint w) s) ↔ ∃ n, Spells 10 s.toList n ∧ 2 ^ w.bits ≤ n) ∧
      (parse (.uint w) s = .error (.invalid (.value (.uint w)) s) ↔ ∀ n, ¬Spells 10 s.toList n) :=
  ⟨fun _ => parse_uint_eq_ok_iff, parse_uint_outOfRange_iff, parse_uint_invalid_iff⟩

example : parse (.uint .w8) "00255" = .ok (.uint .w8 255) ∧
    parse (.uint .w8) "256" = .error (.outOfRange (.uint .w8) "256") := by decide +kernel

end Value

end Stencil
