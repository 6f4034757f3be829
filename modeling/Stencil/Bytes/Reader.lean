import Stencil.Bytes.LittleEndian
import Stencil.Fault

/-! Reading bytes from the front. A reader knows the place of its next byte in the whole input, so a
    reader of a part of the input reports faults at their place in the whole. -/

namespace Stencil

/-- The bytes still to be read and the offset of the first of them. -/
structure Reader where
  rest : List UInt8
  offset : Nat := 0
  deriving DecidableEq, Repr

/-- A step that reads. It keeps what it consumed also where it fails. -/
abbrev Read (α : Type) := EStateM Fault Reader α

namespace Read

variable {α : Type}

def offset : Read Nat := fun r => .ok r.offset r

def failAt (offset : Nat) (reason : Reason) : Read α := fun r => .error ⟨offset, reason⟩ r

def fail (reason : Reason) : Read α := fun r => .error ⟨r.offset, reason⟩ r

def byte : Read UInt8 := fun r =>
  match r.rest with
  | [] => .error ⟨r.offset, .endOfInput⟩ r
  | b :: rest => .ok b ⟨rest, r.offset + 1⟩

/-- The next `count` bytes. Nothing is consumed if there are fewer. -/
def bytes (count : Nat) : Read (List UInt8) := fun r =>
  let taken := r.rest.take count
  if taken.length = count then .ok taken ⟨r.rest.drop count, r.offset + count⟩
  else .error ⟨r.offset, .tooFewBytes count taken.length⟩ r

/-- A number of four bytes, the least significant first. -/
def word32 : Read UInt32 := do return UInt32.ofNat (LittleEndian.value (← bytes 4))

/-- Fails unless every byte of `what` has been read. -/
def finish (what : String) : Read Unit := fun r =>
  if r.rest.isEmpty then .ok () r else .error ⟨r.offset, .trailingBytes r.rest.length what⟩ r

def times (record : Read α) : (count : Nat) → Read (List α)
  | 0 => pure []
  | count + 1 => do return (← record) :: (← times record count)

/-- A step that never gives bytes back. -/
def Advances (x : Read α) : Prop := ∀ r a r', x r = .ok a r' → r'.rest.length ≤ r.rest.length

/-- A step that uses up a byte at least. -/
def Progress (x : Read α) : Prop := ∀ r a r', x r = .ok a r' → r'.rest.length < r.rest.length

/-- Records up to the end of the bytes. Reading ends because each record uses up a byte at least. -/
def toEnd (record : Read α) (progress : Progress record) (r : Reader) :
    EStateM.Result Fault Reader (List α) :=
  if r.rest.isEmpty then .ok [] r
  else match _h : record r with
    | .error fault r' => .error fault r'
    | .ok a r' =>
      match toEnd record progress r' with
      | .error fault r'' => .error fault r''
      | .ok as r'' => .ok (a :: as) r''
  termination_by r.rest.length
  decreasing_by exact progress _ _ _ ‹_›

/-- Reads a part of the input and goes on where it stood before. -/
def inside (part : Reader) (x : Read α) : Read α := fun r =>
  match x part with
  | .ok a _ => .ok a r
  | .error fault _ => .error fault r

/-- The result of reading, without what is left. -/
def value (x : Read α) (r : Reader) : Except Fault α :=
  match x r with
  | .ok a _ => .ok a
  | .error fault _ => .error fault

/-! ### Progress -/

variable {β : Type}

theorem Progress.advances {x : Read α} (hx : Progress x) : Advances x :=
  fun r a r' h => Nat.le_of_lt (hx r a r' h)

theorem bind_eq_ok {x : Read α} {f : α → Read β} {r : Reader} {b : β} {r'' : Reader}
    (h : (x >>= f) r = .ok b r'') : ∃ a r', x r = .ok a r' ∧ f a r' = .ok b r'' := by
  change EStateM.bind x f r = _ at h
  unfold EStateM.bind at h
  split at h
  · exact ⟨_, _, ‹_›, h⟩
  · cases h

theorem advances_pure (a : α) : Advances (pure a : Read α) := by
  intro r b r' h
  cases h
  exact Nat.le_refl _

theorem Advances.bind {x : Read α} {f : α → Read β} (hx : Advances x) (hf : ∀ a, Advances (f a)) :
    Advances (x >>= f) := by
  intro r b r'' h
  obtain ⟨a, r', h₁, h₂⟩ := bind_eq_ok h
  exact Nat.le_trans (hf a r' b r'' h₂) (hx r a r' h₁)

theorem Progress.bind {x : Read α} {f : α → Read β} (hx : Progress x) (hf : ∀ a, Advances (f a)) :
    Progress (x >>= f) := by
  intro r b r'' h
  obtain ⟨a, r', h₁, h₂⟩ := bind_eq_ok h
  exact Nat.lt_of_le_of_lt (hf a r' b r'' h₂) (hx r a r' h₁)

theorem Advances.bind_progress {x : Read α} {f : α → Read β} (hx : Advances x)
    (hf : ∀ a, Progress (f a)) : Progress (x >>= f) := by
  intro r b r'' h
  obtain ⟨a, r', h₁, h₂⟩ := bind_eq_ok h
  exact Nat.lt_of_lt_of_le (hf a r' b r'' h₂) (hx r a r' h₁)

theorem advances_offset : Advances offset := by
  intro r a r' h
  cases h
  exact Nat.le_refl _

theorem progress_failAt (offset : Nat) (reason : Reason) : Progress (failAt offset reason : Read α) := by
  intro r a r' h
  cases h

theorem progress_fail (reason : Reason) : Progress (fail reason : Read α) := by
  intro r a r' h
  cases h

theorem progress_byte : Progress byte := by
  intro r a r' h
  unfold byte at h
  split at h
  · cases h
  · cases h
    simp_all

theorem advances_bytes (count : Nat) : Advances (bytes count) := by
  intro r a r' h
  unfold bytes at h
  dsimp only at h
  split at h
  · cases h
    simp
  · cases h

theorem Advances.times {record : Read α} (hr : Advances record) (count : Nat) :
    Advances (times record count) := by
  induction count with
  | zero => exact advances_pure []
  | succ count ih => exact hr.bind fun _ => ih.bind fun _ => advances_pure _

end Read

end Stencil
