import Stencil.Address
import Stencil.Value.Type

/-! The values of constants, their bytes in a module and their text. -/

namespace Stencil

inductive Value where
  | bool (b : Bool)
  | uint (width : Width) (n : BitVec width.bits)
  | address (a : Address)
  | string (s : String)
  deriving DecidableEq

namespace Value

def type : Value → ValueType
  | .bool _ => .bool
  | .uint w _ => .uint w
  | .address _ => .address
  | .string _ => .string

def display : Value → String
  | .bool b => if b then "true" else "false"
  | .uint _ n => Nat.repr n.toNat
  | .address a => a.display
  | .string s => s

/-- The bytes of an integer. Those of the widest kind are the bytes that its number needs, filled up to the width. -/
def encodeWord : (w : Width) → BitVec w.bits → List UInt8
  | .w256, n => LittleEndian.resize Width.w256.bytes (LittleEndian.minimal n.toNat)
  | w, n => LittleEndian.encode w.bytes n.toNat

/-- The bytes of a value: a truth value is one byte, an integer has the bytes of its width with the
    least significant first, an address its own bytes, and a string the length of its text before it. -/
def encode : Value → List UInt8
  | .bool b => [if b then 1 else 0]
  | .uint w n => encodeWord w n
  | .address a => a.bytes
  | .string s => Uleb128.encode (Utf8.size s) ++ Utf8.encode s

def readWord : Width → Read (List UInt8)
  | .w8 => do return [← Read.byte]
  | w => Read.bytes w.bytes

def read : ValueType → Read Value
  | .bool => do
    let start ← Read.offset
    match ← Read.byte with
    | 0 => return .bool false
    | 1 => return .bool true
    | other => Read.failAt start (.invalidBool other)
  | .uint w => do return .uint w (BitVec.ofNat _ (LittleEndian.value (← readWord w)))
  | .address => do return .address (← Address.read)
  | .string => do
    let size ← Uleb128.read maxLength
    let start ← Read.offset
    match Utf8.decode (← Read.bytes size) with
    | .ok s => return .string s
    | .error fault => Read.failAt start (.stringNotText fault)

/-- The value whose bytes these are, all of them. -/
def decode (type : ValueType) (bytes : List UInt8) : Except Fault Value :=
  Read.value (do let v ← read type; Read.finish "constant value"; return v) { rest := bytes }

end Value

end Stencil
