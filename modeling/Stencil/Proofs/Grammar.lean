import Stencil.Proofs.Contents

/-! The format of the tables as languages of bytes, said without reading or writing: numbers in their one
    spelling, counted bytes, and repetitions. Each language of records has the bytes of the records that fit. -/

namespace Stencil.Grammar

/-- A language of bytes. -/
abbrev Language := List UInt8 → Prop

def Number (max : Nat) : Language := fun bytes => ∃ n ≤ max, Uleb128.Spells n bytes

/-- As many words of a language, one after the other, as `count` says. -/
inductive Repeats (P : Language) : Nat → Language
  | none : Repeats P 0 []
  | more {count : Nat} {word rest : List UInt8} (hword : P word) (hrest : Repeats P count rest) :
    Repeats P (count + 1) (word ++ rest)

/-- Any number of words of a language, one after the other. -/
def Concat (P : Language) : Language := fun bytes => ∃ count, Repeats P count bytes

/-- A word of a language after its length, which is at most `max`. -/
def Counted (max : Nat) (P : Language) : Language := fun bytes =>
  ∃ size word, word.length ≤ max ∧ Uleb128.Spells word.length size ∧ P word ∧ bytes = size ++ word

def Text : Language := fun bytes => ∃ chars : List Char, bytes = chars.flatMap String.utf8EncodeChar

/-- A type that is nested less than `levels` deep. -/
def Token : (levels : Nat) → Language
  | 0 => fun _ => False
  | levels + 1 => fun bytes =>
    (∃ tag ∈ [0x01, 0x02, 0x03, 0x04, 0x05, 0x0C, 0x0D, 0x0E, 0x0F], bytes = [tag]) ∨
    (∃ tag ∈ [0x08, 0x09], ∃ index, Number 0xFFFF index ∧ bytes = tag :: index) ∨
    (∃ tag ∈ [0x06, 0x07, 0x0A], ∃ inner, Token levels inner ∧ bytes = tag :: inner) ∨
    ∃ handle count size arguments, Number 0xFFFF handle ∧ (count ≤ 0xFFFF ∧ Uleb128.Spells count size) ∧
      Repeats (Token levels) count arguments ∧ bytes = 0x0B :: (handle ++ (size ++ arguments))

def Identifier : Language := Counted 0xFFFF Text

/-- A constant: its type, and its data after their length. The outermost type is at depth zero. -/
def Constant : Language := fun bytes => ∃ type size data, Token 257 type ∧ Uleb128.Spells data.length size ∧
  bytes = type ++ (size ++ data)

/-- A module handle. -/
def Handle : Language := fun bytes => ∃ address name, Number 0xFFFF address ∧ Number 0xFFFF name ∧
  bytes = address ++ name

def Contents : Table → Language
  | .pool .identifiers => Concat Identifier
  | .pool .constants => Concat Constant
  | .pool .addresses => fun bytes => bytes.length % 32 = 0
  | .pool .moduleHandles => Concat Handle
  | .carried _ => fun _ => True

/-! ### The bytes of records -/

section Repeats
variable {α : Type} {P : Language} {Fits : α → Prop} {encode : α → List UInt8}

theorem repeats_iff (h : ∀ bytes, P bytes ↔ ∃ a, Fits a ∧ bytes = encode a) {count : Nat} {bytes : List UInt8} :
    Repeats P count bytes ↔ ∃ as : List α, as.length = count ∧ (∀ a ∈ as, Fits a) ∧ bytes = as.flatMap encode := by
  constructor
  · intro hrepeats
    induction hrepeats with
    | none => exact ⟨[], rfl, by simp, rfl⟩
    | more hword hrest ih =>
      obtain ⟨a, ha, rfl⟩ := (h _).mp hword
      obtain ⟨as, rfl, has, rfl⟩ := ih
      exact ⟨a :: as, rfl, List.forall_mem_cons.mpr ⟨ha, has⟩, List.flatMap_cons.symm⟩
  · intro h'
    obtain ⟨as, rfl, has, rfl⟩ := h'
    induction as with
    | nil => exact .none
    | cons a as ih =>
      obtain ⟨ha, has⟩ := List.forall_mem_cons.mp has
      rw [List.flatMap_cons]
      exact .more ((h _).mpr ⟨a, ha, rfl⟩) (ih has)

theorem concat_iff (h : ∀ bytes, P bytes ↔ ∃ a, Fits a ∧ bytes = encode a) {bytes : List UInt8} :
    Concat P bytes ↔ ∃ as : List α, (∀ a ∈ as, Fits a) ∧ bytes = as.flatMap encode := by
  constructor
  · intro h'
    obtain ⟨count, hrepeats⟩ := h'
    obtain ⟨as, -, has⟩ := (repeats_iff h).mp hrepeats
    exact ⟨as, has⟩
  · intro h'
    obtain ⟨as, has⟩ := h'
    exact ⟨as.length, (repeats_iff h).mpr ⟨as, rfl, has⟩⟩

end Repeats

theorem number_iff {max : Nat} {bytes : List UInt8} : Number max bytes ↔ ∃ n ≤ max, bytes = Uleb128.encode n := by
  simp only [Number, Uleb128.spells_iff]

theorem number16_iff {bytes : List UInt8} : Number 0xFFFF bytes ↔ ∃ n : UInt16, bytes = Uleb128.encode n.toNat := by
  rw [number_iff]
  constructor
  · intro h
    obtain ⟨n, hn, rfl⟩ := h
    exact ⟨UInt16.ofNat n, by rw [UInt16.toNat_ofNat', Nat.mod_eq_of_lt (by omega)]⟩
  · intro h
    obtain ⟨n, rfl⟩ := h
    have hn := n.toNat_lt
    exact ⟨n.toNat, by omega, rfl⟩

theorem identifier_iff (bytes : List UInt8) :
    Identifier bytes ↔ ∃ name, Utf8.size name ≤ maxIdentifierLength ∧ bytes = encodeIdentifier name := by
  unfold Identifier Counted
  simp only [Uleb128.spells_iff]
  constructor
  · intro h
    obtain ⟨_, _, hlen, rfl, ⟨chars, rfl⟩, rfl⟩ := h
    have hutf8 : Utf8.encode (String.ofList chars) = chars.flatMap String.utf8EncodeChar := by
      rw [Utf8.encode, String.toList_ofList]
    refine ⟨String.ofList chars, ?_, ?_⟩
    · rw [Utf8.size, hutf8]
      exact hlen
    · rw [encodeIdentifier, Utf8.size, hutf8]
  · intro h
    obtain ⟨name, hsize, rfl⟩ := h
    exact ⟨_, Utf8.encode name, hsize, rfl, ⟨name.toList, rfl⟩, rfl⟩

theorem handle_iff (bytes : List UInt8) : Handle bytes ↔ ∃ h : ModuleHandle, True ∧ bytes = h.encode := by
  unfold Handle
  simp only [number16_iff]
  constructor
  · intro h'
    obtain ⟨_, _, ⟨address, rfl⟩, ⟨name, rfl⟩, rfl⟩ := h'
    exact ⟨⟨address, name⟩, trivial, rfl⟩
  · intro h'
    obtain ⟨h, -, rfl⟩ := h'
    exact ⟨_, _, ⟨h.address, rfl⟩, ⟨h.name, rfl⟩, rfl⟩

/-- The bytes of a type that stand after none, one or all of its parts. -/
theorem token_of_signature {levels : Nat}
    (ih : ∀ bytes, Token levels bytes ↔ ∃ s : Signature, s.Fits levels ∧ bytes = s.encode) {s : Signature}
    (h : s.Fits (levels + 1)) : Token (levels + 1) s.encode := by
  have plain {tag : UInt8} (htag : tag ∈ [0x01, 0x02, 0x03, 0x04, 0x05, 0x0C, 0x0D, 0x0E, 0x0F]) :
      Token (levels + 1) [tag] := Or.inl ⟨tag, htag, rfl⟩
  have index {tag : UInt8} (htag : tag ∈ [0x08, 0x09]) (n : UInt16) :
      Token (levels + 1) (tag :: Uleb128.encode n.toNat) :=
    Or.inr (Or.inl ⟨tag, htag, _, number16_iff.mpr ⟨n, rfl⟩, rfl⟩)
  have wrapper {tag : UInt8} (htag : tag ∈ [0x06, 0x07, 0x0A]) {inner : Signature} (hinner : inner.Fits levels) :
      Token (levels + 1) (tag :: inner.encode) :=
    Or.inr (Or.inr (Or.inl ⟨tag, htag, _, (ih _).mpr ⟨inner, hinner, rfl⟩, rfl⟩))
  cases s with
  | bool | address | signer => exact plain (by decide)
  | uint w => cases w <;> exact plain (by decide)
  | datatype n | parameter n => exact index (by decide) n
  | vector inner => exact wrapper (by decide) (Signature.fits_vector.mp h)
  | reference inner => exact wrapper (by decide) (Signature.fits_reference.mp h)
  | mutableReference inner => exact wrapper (by decide) (Signature.fits_mutableReference.mp h)
  | instantiation handle ss =>
    obtain ⟨hlen, hss⟩ := Signature.fits_instantiation.mp h
    exact Or.inr (Or.inr (Or.inr ⟨_, ss.length, _, _, number16_iff.mpr ⟨handle, rfl⟩,
      ⟨hlen, Uleb128.spells_iff.mpr rfl⟩, (repeats_iff ih).mpr ⟨ss, rfl, hss, rfl⟩,
      by rw [Signature.encode, Signature.encodeAll_eq]⟩))

theorem token_iff (levels : Nat) (bytes : List UInt8) :
    Token levels bytes ↔ ∃ s : Signature, s.Fits levels ∧ bytes = s.encode := by
  induction levels generalizing bytes with
  | zero => simp [Token, Signature.Fits]
  | succ levels ih =>
    have leaf {s : Signature} (hdepth : s.depth = 0) (hnarrow : s.Narrow) : s.Fits (levels + 1) :=
      ⟨by rw [hdepth]; exact Nat.succ_pos levels, hnarrow⟩
    constructor
    · intro h
      rcases h with ⟨tag, htag, rfl⟩ | ⟨tag, htag, _, hindex, rfl⟩ | ⟨tag, htag, _, hinner, rfl⟩ |
        ⟨_, count, _, _, hhandle, ⟨hcount, hsize⟩, harguments, rfl⟩
      · simp only [List.mem_cons, List.not_mem_nil, or_false] at htag
        rcases htag with rfl | rfl | rfl | rfl | rfl | rfl | rfl | rfl | rfl
        · exact ⟨.bool, leaf rfl trivial, rfl⟩
        · exact ⟨.uint .w8, leaf rfl trivial, rfl⟩
        · exact ⟨.uint .w64, leaf rfl trivial, rfl⟩
        · exact ⟨.uint .w128, leaf rfl trivial, rfl⟩
        · exact ⟨.address, leaf rfl trivial, rfl⟩
        · exact ⟨.signer, leaf rfl trivial, rfl⟩
        · exact ⟨.uint .w16, leaf rfl trivial, rfl⟩
        · exact ⟨.uint .w32, leaf rfl trivial, rfl⟩
        · exact ⟨.uint .w256, leaf rfl trivial, rfl⟩
      · obtain ⟨n, rfl⟩ := number16_iff.mp hindex
        simp only [List.mem_cons, List.not_mem_nil, or_false] at htag
        rcases htag with rfl | rfl
        · exact ⟨.datatype n, leaf rfl trivial, rfl⟩
        · exact ⟨.parameter n, leaf rfl trivial, rfl⟩
      · obtain ⟨s, hs, rfl⟩ := (ih _).mp hinner
        simp only [List.mem_cons, List.not_mem_nil, or_false] at htag
        rcases htag with rfl | rfl | rfl
        · exact ⟨.reference s, Signature.fits_reference.mpr hs, rfl⟩
        · exact ⟨.mutableReference s, Signature.fits_mutableReference.mpr hs, rfl⟩
        · exact ⟨.vector s, Signature.fits_vector.mpr hs, rfl⟩
      · obtain ⟨handle, rfl⟩ := number16_iff.mp hhandle
        obtain ⟨ss, rfl, hss, rfl⟩ := (repeats_iff ih).mp harguments
        obtain rfl := Uleb128.spells_iff.mp hsize
        exact ⟨.instantiation handle ss, Signature.fits_instantiation.mpr ⟨hcount, hss⟩,
          by rw [Signature.encode, Signature.encodeAll_eq]⟩
    · intro h
      obtain ⟨s, hs, rfl⟩ := h
      exact token_of_signature ih hs

theorem constant_iff (bytes : List UInt8) : Constant bytes ↔
    ∃ c : Stencil.Constant, (c.type.depth ≤ maxTypeDepth ∧ c.type.Narrow) ∧ bytes = c.encode := by
  unfold Constant
  simp only [token_iff, Uleb128.spells_iff]
  constructor
  · intro h
    obtain ⟨_, _, data, ⟨type, ⟨hdepth, hnarrow⟩, rfl⟩, rfl, rfl⟩ := h
    exact ⟨⟨type, data⟩, ⟨Nat.le_of_lt_succ hdepth, hnarrow⟩, (List.append_assoc _ _ _).symm⟩
  · intro h
    obtain ⟨c, ⟨hdepth, hnarrow⟩, rfl⟩ := h
    exact ⟨_, _, c.data, ⟨c.type, ⟨Nat.lt_succ_of_le hdepth, hnarrow⟩, rfl⟩, rfl, List.append_assoc _ _ _⟩

theorem addresses_iff (bytes : List UInt8) :
    bytes.length % 32 = 0 ↔ ∃ as : List Address, bytes = as.flatMap Address.bytes := by
  constructor
  · intro h
    obtain ⟨count, hcount⟩ := Nat.dvd_of_mod_eq_zero h
    clear h
    induction count generalizing bytes with
    | zero => exact ⟨[], List.length_eq_zero_iff.mp hcount⟩
    | succ count ih =>
      have htake : (bytes.take 32).length = addressLength := by
        rw [List.length_take]
        exact Nat.min_eq_left (by omega)
      obtain ⟨as, has⟩ := ih (bytes.drop 32) (by rw [List.length_drop]; omega)
      refine ⟨⟨bytes.take 32, htake⟩ :: as, ?_⟩
      rw [List.flatMap_cons, ← has, List.take_append_drop]
  · intro h'
    obtain ⟨as, rfl⟩ := h'
    rw [List.length_flatMap, List.map_congr_left fun a _ => a.length_bytes]
    simp [addressLength]

/-- The contents of a pool are the bytes of records that fit. -/
theorem contents_iff {p : Pool} {bytes : List UInt8} (hlen : bytes.length ≤ maxLength) : Contents (.pool p) bytes ↔
    ∃ as : List p.Record, (∀ a ∈ as, p.Fits a) ∧ bytes = as.flatMap p.encode := by
  cases p with
  | moduleHandles => exact concat_iff handle_iff
  | identifiers => exact concat_iff identifier_iff
  | addresses => exact (addresses_iff bytes).trans (exists_congr fun as => (and_iff_right fun _ _ => trivial).symm)
  | constants =>
    refine (concat_iff constant_iff).trans (exists_congr fun cs => and_congr_left ?_)
    rintro rfl
    -- The data of a constant are no longer than the table.
    refine forall₂_congr fun c hc => (and_iff_left ?_).symm
    exact c.length_data_le.trans ((length_le_flatMap hc).trans hlen)

end Stencil.Grammar
