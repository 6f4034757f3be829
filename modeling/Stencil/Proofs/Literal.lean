import Stencil.Edit.Replacement
import Stencil.Value.Literal
import Stencil.Proofs.Hex
import Stencil.Proofs.Value

/-! Literals for integers and addresses, and the text that is shown for a value, which is a literal for that value and
    of its type. An integer is measured by its binary digits before it is narrowed to its width, and what passes the
    one passes the other. -/

namespace Stencil

/-- An address is read from the text that is shown for it. -/
theorem Address.parse_display (a : Address) : parse a.display = .ok a := by
  have hdigits : dropMark a.display.toList = Hex.digits a.bytes := by
    simp only [display, Hex.encode, String.toList_append, String.toList_ofList]
    rfl
  have hlen : (Hex.digits a.bytes).length = 2 * addressLength := by
    rw [Hex.length_digits, a.length_bytes]
  have hne : (Hex.digits a.bytes).isEmpty = false := by
    rw [List.isEmpty_eq_false_iff, ← List.length_pos_iff, hlen]
    decide
  have hall : (Hex.digits a.bytes).all (Hex.value? · |>.isSome) = true :=
    List.all_eq_true.mpr fun c hc => Hex.value?_of_mem_digits hc
  have hread : ofDigits? (Hex.digits a.bytes) = some a := by
    rw [ofDigits?, List.leftpad, hlen, Nat.sub_self, List.replicate_zero, List.nil_append, Hex.bytes?_digits]
    change ofBytes? a.bytes = some a
    rw [ofBytes?, dif_pos a.length_bytes]
  unfold parse
  simp only [hdigits, hne, hall, hlen, hread, Bool.not_true, Bool.or_false, Bool.false_eq_true, if_false,
    Nat.lt_irrefl]

namespace Value

theorem lt_bitLength_iff {bits n : Nat} : bits < bitLength n ↔ 2 ^ bits ≤ n := by
  unfold bitLength
  split
  · rename_i hn
    simp [hn]
  · rename_i hn
    rw [Nat.lt_succ_iff, Nat.le_log2 hn]

theorem narrow?_of_lt {w : Width} {n : Nat} (h : n < 2 ^ w.bits) : narrow? w n = some (BitVec.ofNat w.bits n) :=
  if_pos h

/-- An integer literal is refused by its form or by its length, and never by the narrowing that comes after. -/
theorem parseUint_eq (w : Width) (text : String) : parseUint w text =
    if text.toList.isEmpty || !text.toList.all Char.isDigit then .error (.invalid (.value (.uint w)) text)
    else if 2 ^ w.bits ≤ Nat.ofDigitChars 10 text.toList 0 then .error (.outOfRange (.uint w) text)
    else .ok (.uint w (BitVec.ofNat _ (Nat.ofDigitChars 10 text.toList 0))) := by
  unfold parseUint parseNumber
  by_cases hform : (text.toList.isEmpty || !text.toList.all Char.isDigit) = true
  · simp only [hform, if_true, bind, Except.bind]
  · by_cases hlong : 2 ^ w.bits ≤ Nat.ofDigitChars 10 text.toList 0
    · simp only [hform, lt_bitLength_iff, hlong, Bool.false_eq_true, if_false, if_true, bind, Except.bind]
    · have hnarrow := narrow?_of_lt (Nat.lt_of_not_le hlong)
      simp only [hform, lt_bitLength_iff, hlong, hnarrow, Bool.false_eq_true, if_false, bind, Except.bind]
      rfl

theorem parseUint_repr {w : Width} (n : BitVec w.bits) : parseUint w (Nat.repr n.toNat) = .ok (.uint w n) := by
  have hne : (Nat.toDigits 10 n.toNat).isEmpty = false := List.isEmpty_eq_false_iff.mpr Nat.toDigits_ne_nil
  have hall : (Nat.toDigits 10 n.toNat).all Char.isDigit = true :=
    List.all_eq_true.mpr fun c hc => Nat.isDigit_of_mem_toDigits (by decide) (by decide) hc
  have hlt : ¬ 2 ^ w.bits ≤ n.toNat := Nat.not_le.mpr n.isLt
  rw [parseUint_eq]
  simp only [Nat.toList_repr, hne, hall, Nat.ofDigitChars_ten_toDigits, hlt, Bool.not_true, Bool.or_false,
    Bool.false_eq_true, if_false, BitVec.ofNat_toNat, BitVec.setWidth_eq]

/-- A value is read from the text that is shown for it, unless it is a string that no literal spells. -/
theorem parse_display {v : Value} (h : v.Short) : parse v.type v.display = .ok v := by
  cases v with
  | bool b => cases b <;> rfl
  | uint w n => exact parseUint_repr n
  | address a =>
    change (Address.parse a.display).map Value.address = _
    rw [Address.parse_display]
    rfl
  | string s =>
    change (if maxLength < Utf8.size s then _ else _) = _
    rw [if_neg (Nat.not_lt.mpr h)]
    rfl

end Value

namespace Replacement

/-- A replacement is what its literals spell, each of its type. -/
theorem parse_eq_ok_iff {index : Nat} {type : ValueType} {expected value : String} {e : Replacement} :
    parse index type expected value = .ok e ↔
      e.index = index ∧ Value.parse type expected = .ok e.expected ∧ Value.parse type value = .ok e.value := by
  unfold parse
  constructor
  · intro h
    split at h
    · cases h
    · split at h
      · cases h
      · cases h
        exact ⟨rfl, ‹_›, ‹_›⟩
  · rintro ⟨rfl, hexpected, hvalue⟩
    split
    · rename_i h
      cases h.symm.trans hexpected
    · rename_i h
      cases h.symm.trans hexpected
      split
      · rename_i h
        cases h.symm.trans hvalue
      · rename_i h
        cases h.symm.trans hvalue
        rfl

theorem parse_display {e : Replacement} (hexpected : e.expected.Short) (hvalue : e.value.Short) :
    parse e.index e.type e.expected.display e.value.display = .ok e := by
  have he : Value.parse e.type e.expected.display = .ok e.expected := by
    rw [type, ← e.type_expected]
    exact Value.parse_display hexpected
  exact parse_eq_ok_iff.mpr ⟨rfl, he, Value.parse_display hvalue⟩

end Replacement

end Stencil
