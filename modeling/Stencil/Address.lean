import Stencil.Bytes.Reader

/-! Addresses: 32 bytes, written as hexadecimal text. -/

namespace Stencil

structure Address where
  bytes : List UInt8
  length_bytes : bytes.length = addressLength
  deriving DecidableEq

namespace Address

/-- The address with given bytes, if they are of the right number. -/
def ofBytes? (bytes : List UInt8) : Option Address :=
  if h : bytes.length = addressLength then some ⟨bytes, h⟩ else none

/-- The address in the bytes to come. Nothing is consumed if there are too few. -/
def read : Read Address := fun r =>
  let taken := r.rest.take addressLength
  if h : taken.length = addressLength then
    .ok ⟨taken, h⟩ ⟨r.rest.drop addressLength, r.offset + addressLength⟩
  else .error ⟨r.offset, .tooFewBytes addressLength taken.length⟩ r

/-- The text of an address, with all its digits. -/
def display (a : Address) : String := "0x" ++ Hex.encode a.bytes

/-- The address that up to 64 digits spell, as if zeros stood in front of them. -/
def ofDigits? (digits : List Char) : Option Address :=
  Hex.bytes? (List.leftpad (2 * addressLength) '0' digits) >>= ofBytes?

theorem progress_read : Read.Progress read := by
  intro r a r' h
  unfold read at h
  dsimp only at h
  split at h
  · cases h
    simp_all [addressLength]
    omega
  · cases h

end Address

end Stencil
