import Stencil.Bytes.Uleb128

/-! Types as a module writes them: a byte for the kind of type, and after it what that kind needs. -/

namespace Stencil

inductive Width where
  | w8
  | w16
  | w32
  | w64
  | w128
  | w256
  deriving DecidableEq, Repr

namespace Width

def bytes : Width → Nat
  | w8 => 1
  | w16 => 2
  | w32 => 4
  | w64 => 8
  | w128 => 16
  | w256 => 32

def bits (w : Width) : Nat := 8 * w.bytes

def count (w : Width) : Nat := Nat.pow 2 w.bits

def name (w : Width) : String := s!"u{w.bits}"

end Width

/-- A type. Data types and type parameters are named by their index. -/
inductive Signature where
  | bool
  | uint (width : Width)
  | address
  | signer
  | vector (element : Signature)
  | datatype (handle : UInt16)
  | instantiation (handle : UInt16) (arguments : List Signature)
  | reference (referent : Signature)
  | mutableReference (referent : Signature)
  | parameter (index : UInt16)
  deriving Repr

namespace Signature

/-! ### Equality -/

mutual

def same : Signature → Signature → Bool
  | .bool, .bool | .address, .address | .signer, .signer => true
  | .uint v, .uint w => v == w
  | .vector s, .vector t | .reference s, .reference t | .mutableReference s, .mutableReference t =>
    same s t
  | .datatype i, .datatype j | .parameter i, .parameter j => i == j
  | .instantiation i ss, .instantiation j ts => i == j && sameAll ss ts
  | _, _ => false

def sameAll : List Signature → List Signature → Bool
  | [], [] => true
  | s :: ss, t :: ts => same s t && sameAll ss ts
  | _, _ => false

end

mutual

theorem same_iff : (s t : Signature) → (same s t = true ↔ s = t)
  | .vector s, t => by cases t <;> simp [same, same_iff s]
  | .reference s, t => by cases t <;> simp [same, same_iff s]
  | .mutableReference s, t => by cases t <;> simp [same, same_iff s]
  | .instantiation i ss, t => by cases t <;> simp [same, sameAll_iff ss]
  | .bool, t | .address, t | .signer, t | .uint _, t | .datatype _, t | .parameter _, t => by
    cases t <;> simp [same]

theorem sameAll_iff : (ss ts : List Signature) → (sameAll ss ts = true ↔ ss = ts)
  | [], ts => by cases ts <;> simp [sameAll]
  | s :: ss, ts => by cases ts <;> simp [sameAll, same_iff s, sameAll_iff ss]

end

instance : DecidableEq Signature := fun s t => decidable_of_iff _ (same_iff s t)

/-! ### Bytes -/

/-- A type that may be nested less than `levels` deep. -/
def readWithin : (levels : Nat) → Read Signature
  | 0 => Read.fail .typeTooDeep
  | levels + 1 => do
    let start ← Read.offset
    match ← Read.byte with
    | 0x01 => return .bool
    | 0x02 => return .uint .w8
    | 0x03 => return .uint .w64
    | 0x04 => return .uint .w128
    | 0x05 => return .address
    | 0x06 => return .reference (← readWithin levels)
    | 0x07 => return .mutableReference (← readWithin levels)
    | 0x08 => return .datatype (← Uleb128.read16)
    | 0x09 => return .parameter (← Uleb128.read16)
    | 0x0A => return .vector (← readWithin levels)
    | 0x0B => do
      let handle ← Uleb128.read16
      let count ← Uleb128.read16
      return .instantiation handle (← Read.times (readWithin levels) count.toNat)
    | 0x0C => return .signer
    | 0x0D => return .uint .w16
    | 0x0E => return .uint .w32
    | 0x0F => return .uint .w256
    | tag => Read.failAt start (.unknownTypeTag tag)

/-- A type. The outermost type is at depth zero. -/
def read : Read Signature := readWithin (maxTypeDepth + 1)

mutual

def encode : Signature → List UInt8
  | .bool => [0x01]
  | .uint .w8 => [0x02]
  | .uint .w64 => [0x03]
  | .uint .w128 => [0x04]
  | .address => [0x05]
  | .reference s => 0x06 :: encode s
  | .mutableReference s => 0x07 :: encode s
  | .datatype handle => 0x08 :: Uleb128.encode handle.toNat
  | .parameter index => 0x09 :: Uleb128.encode index.toNat
  | .vector s => 0x0A :: encode s
  | .instantiation handle ss =>
    0x0B :: (Uleb128.encode handle.toNat ++ (Uleb128.encode ss.length ++ encodeAll ss))
  | .signer => [0x0C]
  | .uint .w16 => [0x0D]
  | .uint .w32 => [0x0E]
  | .uint .w256 => [0x0F]

def encodeAll : List Signature → List UInt8
  | [] => []
  | s :: ss => encode s ++ encodeAll ss

end

/-! ### Text -/

mutual

def display : Signature → String
  | .bool => "bool"
  | .uint w => w.name
  | .address => "address"
  | .signer => "signer"
  | .vector s => s!"vector<{display s}>"
  | .datatype handle => s!"datatype#{handle.toNat}"
  | .instantiation handle ss => s!"datatype#{handle.toNat}<{displayAll ss}>"
  | .reference s => s!"&{display s}"
  | .mutableReference s => s!"&mut {display s}"
  | .parameter index => s!"T{index.toNat}"

def displayAll : List Signature → String
  | [] => ""
  | [s] => display s
  | s :: ss => display s ++ ", " ++ displayAll ss

end

/-! ### Progress -/

theorem progress_readWithin (levels : Nat) : Read.Progress (readWithin levels) := by
  induction levels with
  | zero => exact Read.progress_fail _
  | succ levels ih =>
    refine Read.advances_offset.bind_progress fun start => Read.progress_byte.bind fun tag => ?_
    have one (f : Signature → Signature) :
        Read.Advances (do return f (← readWithin levels) : Read Signature) :=
      ih.advances.bind fun _ => Read.advances_pure _
    have number (f : UInt16 → Signature) :
        Read.Advances (do return f (← Uleb128.read16) : Read Signature) :=
      Uleb128.progress_read16.advances.bind fun _ => Read.advances_pure _
    split
    all_goals first
      | exact Read.advances_pure _
      | exact one _
      | exact number _
      | exact (Read.progress_failAt _ _).advances
      | exact Uleb128.progress_read16.advances.bind fun _ => Uleb128.progress_read16.advances.bind fun _ =>
          (ih.advances.times _).bind fun _ => Read.advances_pure _

theorem progress_read : Read.Progress read := progress_readWithin _

end Signature

end Stencil
