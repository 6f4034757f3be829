import Stencil.Bytes.Hex
import Stencil.Table
import Stencil.Text.Utf8

/-! What can be wrong with binary input, and where. -/

namespace Stencil

/-- The largest number of 32 bits, which no table may outgrow. -/
def maxLength : Nat := 0xFFFFFFFF

def maxTypeDepth : Nat := 256

def addressLength : Nat := 32

inductive Reason where
  | endOfInput
  | tooFewBytes (need left : Nat)
  /-- `count` bytes are left after all of `what` was read. -/
  | trailingBytes (count : Nat) (what : String)
  | numberOverflow
  /-- A variable-length number is written with more bytes than it needs. -/
  | numberPadded
  | numberTooLarge (value limit : Nat)
  | typeTooDeep
  | unknownTypeTag (tag : UInt8)
  | invalidBool (byte : UInt8)
  | stringNotText (fault : Utf8.Fault)
  | identifierNotText (fault : Utf8.Fault)
  | badMagic
  | unknownTable (code : UInt8)
  | duplicateTable (kind : Table)
  /-- A table does not begin where the one before it ends. -/
  | misplacedTable (kind : Table) (offset expected : Nat)
  | tablesTooLong (need left : Nat)
  | brokenAddresses (length : Nat)
  | tableTooLarge (kind : Table)
  | contentsTooLarge
  | missingTable (kind : Table)
  /-- A finding in the caller's own words. -/
  | custom (text : String)
  deriving DecidableEq, Repr

def Reason.message : Reason → String
  | .endOfInput => "unexpected end of input"
  | .tooFewBytes need left => s!"need {need} bytes, only {left} left"
  | .trailingBytes count what => s!"{count} trailing bytes after {what}"
  | .numberOverflow => "ULEB128 value overflows u64"
  | .numberPadded => "non-canonical ULEB128 encoding"
  | .numberTooLarge value limit => s!"ULEB128 value {value} exceeds limit {limit}"
  | .typeTooDeep => s!"type nesting deeper than {maxTypeDepth}"
  | .unknownTypeTag tag => s!"unrecognized type tag 0x{Hex.encode [tag]}"
  | .invalidBool byte => s!"invalid bool byte {byte.toNat}"
  | .stringNotText fault => s!"invalid UTF-8: {fault.message}"
  | .identifierNotText fault => s!"identifier is not UTF-8: {fault.message}"
  | .badMagic => "bad magic, not a Move module"
  | .unknownTable code => s!"unknown table kind 0x{Hex.encode [code]}"
  | .duplicateTable kind => s!"duplicate table {kind.name}"
  | .misplacedTable kind offset expected => s!"table {kind.name} at offset {offset}, expected {expected}"
  | .tablesTooLong need left => s!"tables need {need} bytes, only {left} left"
  | .brokenAddresses length => s!"address table length {length} is not a multiple of {addressLength}"
  | .tableTooLarge kind => s!"table {kind.name} exceeds {maxLength} bytes"
  | .contentsTooLarge => "table contents exceed u32 offsets"
  | .missingTable kind => s!"no contents for table {kind.name}"
  | .custom text => text

/-- A reason and the place where it shows, counted in bytes from the start of the input. -/
structure Fault where
  offset : Nat
  reason : Reason
  deriving DecidableEq, Repr

def Fault.message (fault : Fault) : String :=
  s!"malformed module at byte {fault.offset}: {fault.reason.message}"

end Stencil
