/-! Numbers as bytes, the least significant byte first: of fixed count, or as few as a number needs. -/

namespace Stencil.LittleEndian

/-- The number that bytes spell. -/
def value : List UInt8 → Nat
  | [] => 0
  | b :: rest => b.toNat + 256 * value rest

/-- The low `count` bytes of a number. -/
def encode : (count : Nat) → Nat → List UInt8
  | 0, _ => []
  | count + 1, n => UInt8.ofNat (n % 256) :: encode count (n / 256)

/-- The bytes of a number up to the last one that is not zero. Zero itself has one byte. -/
def minimal (n : Nat) : List UInt8 :=
  if n < 256 then [UInt8.ofNat n] else UInt8.ofNat (n % 256) :: minimal (n / 256)

/-- Bytes cut off after `count` of them, or filled up to as many with zeros. -/
def resize (count : Nat) (bytes : List UInt8) : List UInt8 := (bytes.take count).rightpad count 0

end Stencil.LittleEndian
