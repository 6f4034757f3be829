import Stencil.Bytes.Reader

/-! Numbers of variable length: seven bits a byte, the least significant first, and the high bit set
    on every byte but the last. Only the shortest spelling of a number is read, so a number that is
    read is written again as the same bytes. -/

namespace Stencil.Uleb128

def encode (n : Nat) : List UInt8 :=
  if n < 128 then [UInt8.ofNat n] else UInt8.ofNat (n % 128 + 128) :: encode (n / 128)

/-- The seven bits that a byte adds to a number. -/
def digit (byte : UInt8) : UInt64 := (byte &&& 0x7F).toUInt64

/-- A number that is being read: the bits that have been read, and how many they are. -/
structure LowBits where
  value : UInt64 := 0
  shift : Nat := 0
  deriving DecidableEq, Repr

/-- What a byte makes of a number that is being read. -/
inductive Turn where
  /-- The byte is the number's last. -/
  | last (n : UInt64)
  | more (low : LowBits)
  deriving DecidableEq, Repr

namespace LowBits

/-- The bits that have been read, and above them those of one more byte. -/
def join (low : LowBits) (byte : UInt8) : UInt64 := low.value ||| digit byte <<< UInt64.ofNat low.shift

/-- Reads one more byte of a number up to `max`. Above 63 bits there is room for one bit only, and no
    byte but the first may end a number with seven zeros. -/
def turn (max : Nat) (low : LowBits) (byte : UInt8) : Except Reason Turn :=
  if low.shift = 63 ∧ 1 < digit byte then .error .numberOverflow
  else if byte &&& 0x80 = 0 then
    if 0 < low.shift ∧ digit byte = 0 then .error .numberPadded
    else if max < (low.join byte).toNat then .error (.numberTooLarge (low.join byte).toNat max)
    else .ok (.last (low.join byte))
  else if 63 < low.shift + 7 then .error .numberOverflow
  else .ok (.more ⟨low.join byte, low.shift + 7⟩)

/-- A byte that is not refused is joined to what has been read. -/
theorem eq_of_turn {max : Nat} {low : LowBits} {byte : UInt8} {t : Turn} (h : low.turn max byte = .ok t) :
    ¬(low.shift = 63 ∧ 1 < digit byte) ∧
      (t = .last (low.join byte) ∨ t = .more ⟨low.join byte, low.shift + 7⟩ ∧ low.shift + 7 ≤ 63) := by
  unfold turn at h
  split at h
  · cases h
  · rename_i hfit
    refine ⟨hfit, ?_⟩
    split at h
    · split at h
      · cases h
      · split at h
        · cases h
        · cases h
          exact Or.inl rfl
    · split at h
      · cases h
      · cases h
        exact Or.inr ⟨rfl, Nat.le_of_not_lt ‹_›⟩

theorem shift_of_turn {max : Nat} {low low' : LowBits} {byte : UInt8} (h : low.turn max byte = .ok (.more low')) :
    low'.shift = low.shift + 7 ∧ low'.shift ≤ 63 := by
  rcases (eq_of_turn h).2 with hlast | ⟨hmore, hle⟩
  · cases hlast
  · cases hmore
    exact ⟨rfl, hle⟩

end LowBits

/-- The rest of a number that began at `start` and whose low bits have been read. -/
def readFrom (start max : Nat) (low : LowBits) : Read Nat := do
  let byte ← Read.byte
  match _h : low.turn max byte with
  | .error reason => Read.failAt start reason
  | .ok (.last n) => return n.toNat
  | .ok (.more low') => readFrom start max low'
  termination_by 63 - low.shift
  decreasing_by
    have hshift := LowBits.shift_of_turn _h
    omega

/-- How reading goes on after a byte. -/
def proceed (start max : Nat) : Except Reason Turn → Read Nat
  | .error reason => Read.failAt start reason
  | .ok (.last n) => return n.toNat
  | .ok (.more low) => readFrom start max low

theorem readFrom_eq (start max : Nat) (low : LowBits) : readFrom start max low = (do
    proceed start max (low.turn max (← Read.byte))) := by
  rw [readFrom]
  refine congrArg (Read.byte >>= ·) (funext fun byte => ?_)
  cases low.turn max byte with
  | error reason => rfl
  | ok turn => cases turn <;> rfl

def read (max : Nat) : Read Nat := do readFrom (← Read.offset) max {}

def read16 : Read UInt16 := do return UInt16.ofNat (← read 0xFFFF)

theorem progress_readFrom (start max : Nat) (low : LowBits) : Read.Progress (readFrom start max low) := by
  induction low using readFrom.induct max with
  | case1 low ih =>
    rw [readFrom_eq]
    refine Read.progress_byte.bind fun byte => ?_
    cases hturn : low.turn max byte with
    | error reason => exact (Read.progress_failAt _ _).advances
    | ok turn =>
      cases turn with
      | last n => exact Read.advances_pure _
      | more low' => exact (ih byte low' hturn).advances

theorem progress_read (max : Nat) : Read.Progress (read max) :=
  Read.advances_offset.bind_progress fun start => progress_readFrom start max {}

theorem progress_read16 : Read.Progress read16 := (progress_read _).bind fun _ => Read.advances_pure _

end Stencil.Uleb128
