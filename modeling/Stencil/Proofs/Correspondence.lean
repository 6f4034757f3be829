import Stencil.Proofs.Address
import Stencil.Proofs.Replacing

/-! Values, their bytes and their texts correspond one to one. The values in question are those that a literal or
    bytes can give: all but the strings that are too long for a length field. Each has one spelling in bytes, and among
    the literals for it the text that is shown for it, by which it is told from all other values of its type. -/

namespace Stencil.Value

theorem short_iff {v : Value} : v.Short ↔ ∀ s, v = .string s → Utf8.size s < 2 ^ 32 := by
  cases v with
  | string s =>
    have hmax : maxLength + 1 = 2 ^ 32 := rfl
    simp only [Short, string.injEq, forall_eq', ← hmax, Nat.lt_succ_iff]
  | _ => simp [Short]

/-- A literal and bytes can give the same values. -/
theorem obtained_iff_short {v : Value} : v.Obtained ↔ v.Short :=
  ⟨Obtained.short, fun hshort => Or.inl ⟨v.display, parse_display hshort⟩⟩

/-- Bytes are read as a value exactly if they are written for it and have its type, and the value is one that can be
    obtained at all: any value but a string of 2^32 bytes or more. -/
theorem decode_spec (type : ValueType) (bytes : List UInt8) (v : Value) :
    (decode type bytes = .ok v ↔ v.Obtained ∧ v.type = type ∧ v.encode = bytes) ∧
      (v.Obtained ↔ ∀ s, v = .string s → Utf8.size s < 2 ^ 32) := by
  refine ⟨?_, obtained_iff_short.trans short_iff⟩
  rw [decode_eq_ok_iff, obtained_iff_short]
  constructor
  · rintro ⟨⟨htype, hshort⟩, rfl⟩
    exact ⟨hshort, htype, rfl⟩
  · rintro ⟨hshort, htype, rfl⟩
    exact ⟨⟨htype, hshort⟩, rfl⟩

theorem short_of_type_ne {v : Value} (h : v.type ≠ .string) : v.Short := by
  cases v with
  | string s => exact absurd rfl h
  | _ => trivial

/-- A value is told from all others of its type by its text, whether or not a literal can be as long. -/
theorem eq_of_display {v w : Value} (htype : v.type = w.type) (hdisplay : v.display = w.display) : v = w := by
  by_cases htext : v.type = .string
  · cases v <;> cases htext
    cases w <;> cases htype
    exact congrArg string hdisplay
  · have hv := parse_display (short_of_type_ne htext)
    have hw := parse_display (short_of_type_ne (htype ▸ htext))
    rw [htype, hdisplay, hw] at hv
    exact (Except.ok.inj hv).symm

/-- The text that is shown for a value is a literal for that value, and the one into which every other literal for it
    turns when it is read and shown. No two values of one type have the same text. -/
theorem display_spec (v : Value) :
    (v.Obtained ↔ parse v.type v.display = .ok v) ∧
      (∀ type literal, parse type literal = .ok v →
        parse type v.display = .ok v ∧ (parse type v.display).map display = .ok v.display) ∧
      ∀ w, v.type = w.type → v.display = w.display → v = w := by
  refine ⟨⟨fun h => parse_display h.short, fun h => Or.inl ⟨v.display, h⟩⟩, ?_, fun w => eq_of_display⟩
  intro type literal h
  obtain rfl := type_of_parse h
  have hparse := parse_display (short_of_parse h)
  exact ⟨hparse, by rw [hparse]; rfl⟩

end Stencil.Value
