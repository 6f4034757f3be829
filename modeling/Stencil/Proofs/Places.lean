import Stencil.Module.Decode
import Stencil.Proofs.Layout

/-! Where faults show. A step that reads the bytes between two offsets leaves a reader between them, and what it finds
    wrong it finds there, also where it points back to the place at which a number, a type or a name began. A part of
    the input that is read inside keeps to the offsets of that part. -/

namespace Stencil

/-- The bytes that are left begin at `low` or later and end at `high`. -/
def Reader.Between (low high : Nat) (r : Reader) : Prop := low ≤ r.offset ∧ r.offset + r.rest.length = high

section Between
variable {low high : Nat} {r : Reader} (h : r.Between low high)
include h

theorem Reader.Between.offset : low ≤ r.offset ∧ r.offset ≤ high := ⟨h.1, h.2 ▸ Nat.le_add_right _ _⟩

theorem Reader.Between.drop {count : Nat} (hcount : count ≤ r.rest.length) :
    Reader.Between low high ⟨r.rest.drop count, r.offset + count⟩ := by
  obtain ⟨hlow, hhigh⟩ := h
  refine ⟨Nat.le_trans hlow (Nat.le_add_right _ _), ?_⟩
  dsimp only
  rw [List.length_drop]
  omega

end Between

namespace Read
variable {α β : Type} {low high : Nat} {x : Read α} {P Q : α → Prop}

/-- A step has left a reader between two offsets and given what `Q` says, or found a fault at one of the offsets or
    between them. -/
def Kept (low high : Nat) (Q : α → Prop) : EStateM.Result Fault Reader α → Prop
  | .ok a r => r.Between low high ∧ Q a
  | .error fault _ => low ≤ fault.offset ∧ fault.offset ≤ high

/-- A step that begins between two offsets stays there. -/
def Stays (low high : Nat) (x : Read α) (Q : α → Prop) : Prop :=
  ∀ r : Reader, r.Between low high → Kept low high Q (x r)

theorem Stays.error_offset (hx : Stays low high x Q) {r r' : Reader} {fault : Fault} (hr : r.Between low high)
    (h : x r = .error fault r') : low ≤ fault.offset ∧ fault.offset ≤ high := by
  have hkept := hx r hr
  rwa [h] at hkept

theorem Stays.value_offset (hx : Stays low high x Q) {r : Reader} {fault : Fault} (hr : r.Between low high)
    (h : value x r = .error fault) : low ≤ fault.offset ∧ fault.offset ≤ high := by
  unfold value at h
  cases hresult : x r with
  | ok a r' => simp [hresult] at h
  | error fault' r' =>
    rw [hresult] at h
    cases h
    exact hx.error_offset hr hresult

/-! ### Steps -/

theorem stays_pure {a : α} (h : Q a) : Stays low high (pure a) Q := fun _ hr => ⟨hr, h⟩

theorem stays_failAt {start : Nat} (h : low ≤ start ∧ start ≤ high) (reason : Reason) :
    Stays low high (failAt start reason) Q := fun _ _ => h

theorem stays_fail (reason : Reason) : Stays low high (fail reason) Q := fun _ hr => hr.offset

theorem stays_offset : Stays low high offset fun start => low ≤ start ∧ start ≤ high := fun _ hr => ⟨hr, hr.offset⟩

theorem stays_get : Stays low high get fun _ => True := fun _ hr => ⟨hr, trivial⟩

theorem stays_byte : Stays low high byte fun _ => True := by
  rintro ⟨rest, start⟩ hr
  cases rest with
  | nil => exact hr.offset
  | cons b rest => exact ⟨hr.drop (Nat.le_add_left 1 rest.length), trivial⟩

theorem stays_bytes (count : Nat) : Stays low high (bytes count) fun _ => True := by
  intro r hr
  unfold bytes
  dsimp only
  split
  · rename_i hlen
    rw [List.length_take] at hlen
    exact ⟨hr.drop (by omega), trivial⟩
  · exact hr.offset

theorem stays_finish (what : String) : Stays low high (finish what) fun _ => True := by
  intro r hr
  unfold finish
  split
  · exact ⟨hr, trivial⟩
  · exact hr.offset

/-! ### Sequences -/

theorem Stays.bind {f : α → Read β} {Q : β → Prop} (hx : Stays low high x P)
    (hf : ∀ a, P a → Stays low high (f a) Q) : Stays low high (x >>= f) Q := by
  intro r hr
  have hkept := hx r hr
  cases hresult : x r with
  | ok a r' =>
    rw [hresult] at hkept
    rw [bind_of_ok hresult]
    exact hf a hkept.2 r' hkept.1
  | error fault r' =>
    rw [hresult] at hkept
    rw [bind_of_error hresult]
    exact hkept

theorem Stays.map {Q : β → Prop} {f : α → β} (hx : Stays low high x P) (h : ∀ a, P a → Q (f a)) :
    Stays low high (do return f (← x)) Q := hx.bind fun a ha => stays_pure (h a ha)

theorem Stays.times {record : Read α} (h : Stays low high record fun _ => True) (count : Nat) :
    Stays low high (times record count) fun _ => True := by
  induction count with
  | zero => exact stays_pure trivial
  | succ count ih => exact h.bind fun _ _ => ih.map fun _ _ => trivial

theorem Stays.toEnd {record : Read α} (h : Stays low high record fun _ => True) (progress : Progress record) :
    Stays low high (toEnd record progress) fun _ => True := by
  intro r hr
  induction hlen : r.rest.length using Nat.strongRecOn generalizing r with
  | ind n ih =>
    subst hlen
    have hkept := h r hr
    by_cases hnil : r.rest = []
    · rw [toEnd_of_nil progress hnil]
      exact ⟨hr, trivial⟩
    · cases hread : record r with
      | error fault r₁ =>
        rw [hread] at hkept
        rw [toEnd_of_error progress hnil hread]
        exact hkept
      | ok a r₁ =>
        rw [hread] at hkept
        have hmore := ih _ (progress r a r₁ hread) r₁ hkept.1 rfl
        rw [toEnd_of_ok progress hread]
        cases hend : Read.toEnd record progress r₁ with
        | ok as r₂ | error fault r₂ =>
          rw [hend] at hmore
          exact hmore

/-- A part of the input that is read inside begins at the offset where its bytes were taken. -/
theorem Stays.inside {start : Nat} {contents : List UInt8} (hx : Stays start (start + contents.length) x Q)
    (hlow : low ≤ start) (hhigh : start + contents.length ≤ high) :
    Stays low high (inside ⟨contents, start⟩ x) Q := by
  intro r hr
  have hkept := hx ⟨contents, start⟩ ⟨Nat.le_refl _, rfl⟩
  cases hresult : x ⟨contents, start⟩ with
  | ok a r' =>
    rw [hresult] at hkept
    rw [inside_of_ok hresult]
    exact ⟨hr, hkept.2⟩
  | error fault r' =>
    rw [hresult] at hkept
    rw [inside_of_error hresult]
    exact ⟨Nat.le_trans hlow hkept.1, Nat.le_trans hkept.2 hhigh⟩

/-- Bytes that are taken from a known offset on lie between the offsets. -/
theorem stays_part {count : Nat} {f : Nat → List UInt8 → Read β} {Q : β → Prop} (hf : ∀ start contents,
      low ≤ start → start + contents.length ≤ high → Stays low high (f start contents) Q) :
    Stays low high (do let start ← offset; let contents ← bytes count; f start contents) Q := by
  intro r hr
  have hkept := stays_bytes count r hr
  rw [bind_of_ok (rfl : offset r = .ok r.offset r)]
  cases hresult : bytes count r with
  | ok contents r' =>
    rw [hresult] at hkept
    rw [bind_of_ok hresult]
    obtain ⟨contents, ⟨-, rfl⟩, hconsumes⟩ := (reads_bytes count r contents r').mp hresult
    have hend : r.offset + contents.length ≤ high := hconsumes.2 ▸ hkept.1.offset.2
    exact hf r.offset contents hr.1 hend r' hkept.1
  | error fault r' =>
    rw [hresult] at hkept
    rw [bind_of_error hresult]
    exact hkept

end Read

open Read

/-! ### Numbers, types and records -/

section Records
variable {low high : Nat}

theorem Uleb128.stays_readFrom {start : Nat} (h : low ≤ start ∧ start ≤ high) (max : Nat) (bits : LowBits) :
    Stays low high (readFrom start max bits) fun _ => True := by
  induction bits using readFrom.induct max with
  | case1 bits ih =>
    rw [readFrom_eq]
    refine stays_byte.bind fun byte _ => ?_
    cases hturn : bits.turn max byte with
    | error reason => exact stays_failAt h _
    | ok turn =>
      cases turn with
      | last n => exact stays_pure trivial
      | more bits' => exact ih byte bits' hturn

theorem Uleb128.stays_read (max : Nat) : Stays low high (read max) fun _ => True :=
  stays_offset.bind fun _ hstart => stays_readFrom hstart max {}

theorem Uleb128.stays_read16 : Stays low high read16 fun _ => True := (stays_read 0xFFFF).map fun _ _ => trivial

theorem Signature.stays_readWithin (levels : Nat) : Stays low high (readWithin levels) fun _ => True := by
  induction levels with
  | zero => exact stays_fail _
  | succ levels ih =>
    refine stays_offset.bind fun start hstart => stays_byte.bind fun tag _ => ?_
    have one (f : Signature → Signature) :
        Stays low high (do return f (← readWithin levels) : Read Signature) fun _ => True := ih.map fun _ _ => trivial
    have number (f : UInt16 → Signature) :
        Stays low high (do return f (← Uleb128.read16) : Read Signature) fun _ => True :=
      Uleb128.stays_read16.map fun _ _ => trivial
    split
    all_goals first
      | exact stays_pure trivial
      | exact one _
      | exact number _
      | exact stays_failAt hstart _
      | exact Uleb128.stays_read16.bind fun _ _ => Uleb128.stays_read16.bind fun _ _ =>
          (ih.times _).map fun _ _ => trivial

theorem Constant.stays_read : Stays low high Constant.read fun _ => True :=
  (Signature.stays_readWithin _).bind fun _ _ => (Uleb128.stays_read _).bind fun size _ =>
    (stays_bytes size).map fun _ _ => trivial

theorem ModuleHandle.stays_read : Stays low high ModuleHandle.read fun _ => True :=
  Uleb128.stays_read16.bind fun _ _ => Uleb128.stays_read16.map fun _ _ => trivial

theorem stays_readIdentifier : Stays low high readIdentifier fun _ => True := by
  refine (Uleb128.stays_read _).bind fun size _ => stays_offset.bind fun start hstart =>
    (stays_bytes size).bind fun bytes _ => ?_
  split
  · exact stays_pure trivial
  · exact stays_failAt hstart _

theorem Address.stays_read : Stays low high Address.read fun _ => True := by
  intro r hr
  unfold Address.read
  dsimp only
  split
  · rename_i hlen
    rw [List.length_take] at hlen
    exact ⟨hr.drop (by omega), trivial⟩
  · exact hr.offset

end Records

/-! ### The directory and the tables -/

section Tables
variable {low high : Nat}

/-- An entry remembers a place between the offsets. -/
def Entry.Between (low high : Nat) (e : Entry) : Prop := low ≤ e.place ∧ e.place ≤ high

namespace Entry

theorem stays_read (seen : List Table) : Stays low high (read seen) (Entry.Between low high) := by
  refine stays_offset.bind fun place hplace => stays_byte.bind fun code _ => ?_
  split
  · exact stays_failAt hplace _
  · split
    · exact stays_failAt hplace _
    · exact (Uleb128.stays_read _).bind fun offset _ => (Uleb128.stays_read _).map fun length _ => hplace

theorem stays_readAll (seen : List Table) (count : Nat) :
    Stays low high (readAll seen count) fun es => ∀ e ∈ es, e.Between low high := by
  induction count generalizing seen with
  | zero => exact stays_pure (by simp)
  | succ count ih =>
    exact (stays_read seen).bind fun e he => (ih _).map fun es hes => List.forall_mem_cons.mpr ⟨he, hes⟩

theorem stays_checkOffsets (expected : Nat) {es : List Entry} (h : ∀ e ∈ es, e.Between low high) :
    Stays low high (checkOffsets expected es) fun _ => True := by
  induction es generalizing expected with
  | nil => exact stays_pure trivial
  | cons e es ih =>
    obtain ⟨he, hes⟩ := List.forall_mem_cons.mp h
    rw [checkOffsets]
    split
    · exact ih _ hes
    · exact stays_failAt he _

end Entry

namespace Module

theorem stays_readPool (m : Module) (p : Pool) : Stays low high (m.readPool p) fun _ => True := by
  cases p with
  | moduleHandles => exact (ModuleHandle.stays_read.toEnd _).map fun _ _ => trivial
  | constants => exact (Constant.stays_read.toEnd _).map fun _ _ => trivial
  | identifiers => exact (stays_readIdentifier.toEnd _).map fun _ _ => trivial
  | addresses =>
    refine stays_get.bind fun contents _ => ?_
    dsimp only
    split
    · exact stays_fail _
    · exact (Address.stays_read.toEnd _).map fun _ _ => trivial

theorem stays_readTable (m : Module) (e : Entry) : Stays low high (m.readTable e) fun _ => True := by
  refine stays_part fun start contents hlow hhigh => ?_
  split
  · exact ((stays_readPool m _).inside hlow hhigh).map fun _ _ => trivial
  · exact stays_pure trivial

theorem stays_readTables (m : Module) (placed : List Entry) (total : Nat) :
    Stays low high (m.readTables placed total) fun _ => True := by
  refine stays_get.bind fun r _ => ?_
  dsimp only
  split
  · exact stays_fail _
  · induction placed generalizing m with
    | nil => exact stays_pure trivial
    | cons e placed ih =>
      rw [List.foldlM_cons]
      exact (stays_readTable m e).bind fun m _ => ih m

/-- What follows the tables. -/
theorem stays_selfHandle (m : Module) (version : Nat) : Stays low high (do
      let selfHandle ← readSelfHandle version
      finish "module"
      return { m with selfHandle }) fun _ => True := by
  have hself : Stays low high (readSelfHandle version) fun _ => True := by
    unfold readSelfHandle
    split
    · rw [map_eq_pure_bind]
      exact Uleb128.stays_read16.map fun _ _ => trivial
    · exact stays_pure trivial
  exact hself.bind fun _ _ => (stays_finish _).bind fun _ _ => stays_pure trivial

theorem stays_readListed (word : UInt32) {es : List Entry} (h : ∀ e ∈ es, e.Between low high) :
    Stays low high (readListed word es) fun _ => True := by
  have harranged : ∀ e ∈ Entry.arrange es, e.Between low high := fun e he =>
    h e ((Entry.perm_arrange es).mem_iff.mp he)
  exact (Entry.stays_checkOffsets 0 harranged).bind fun _ _ => (stays_readTables _ _ _).bind fun m _ =>
    stays_selfHandle m _

theorem stays_readBody (word : UInt32) : Stays low high (readBody word) fun _ => True :=
  (Uleb128.stays_read 0xFF).bind fun count _ => (Entry.stays_readAll [] count).bind fun _ hes =>
    stays_readListed word hes

theorem stays_readVersionWord : Stays low high readVersionWord fun _ => True := by
  refine stays_offset.bind fun start hstart => (stays_bytes _).bind fun mark _ => ?_
  split
  · exact (stays_bytes 4).map fun _ _ => trivial
  · exact stays_failAt hstart _

theorem mapError_malformed_iff {α : Type} {result : Except Fault α} {fault : Fault} :
    result.mapError Error.malformed = .error (.malformed fault) ↔ result = .error fault := by
  cases result <;> simp [Except.mapError]

/-- What is wrong with an input shows in the input or at its end. -/
theorem offset_le_of_decode {bytes : List UInt8} {fault : Fault} (h : decode bytes = .error (.malformed fault)) :
    fault.offset ≤ bytes.length := by
  have hkept := stays_readVersionWord { rest := bytes } ⟨Nat.le_refl 0, Nat.zero_add bytes.length⟩
  unfold decode at h
  cases hword : readVersionWord { rest := bytes } with
  | error fault' r =>
    rw [hword] at h hkept
    cases h
    exact hkept.2
  | ok word r =>
    rw [hword] at h hkept
    dsimp only at h
    split at h
    · cases h
    · exact ((stays_readBody word).value_offset hkept.1 (mapError_malformed_iff.mp h)).2

end Module

end Tables

end Stencil
