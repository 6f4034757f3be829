import Stencil.Error

/-! Compiled modules. The four pools are held as records, all other tables as their bytes; the order of
    the tables in the directory and the order of their contents are kept apart, because a module may
    list its tables in any order. -/

namespace Stencil

def maxIdentifierLength : Nat := 0xFFFF

/-- The first version whose modules end with the index of their own handle. -/
def selfHandleVersion : Nat := 5

/-- A constant: the type that it is declared with and the bytes of its value. -/
structure Constant where
  type : Signature
  data : List UInt8
  deriving DecidableEq

/-- A module that is referred to, by the indices of its address and its name. -/
structure ModuleHandle where
  address : UInt16
  name : UInt16
  deriving DecidableEq, Repr

/-- The contents of a table: those of a pool are the module's records. -/
inductive Slot where
  | pool (pool : Pool)
  | carried (table : Carried) (contents : List UInt8)
  deriving DecidableEq, Repr

def Slot.kind : Slot → Table
  | .pool p => .pool p
  | .carried table _ => .carried table

/-- A compiled module. -/
structure Module where
  /-- The version in the low 24 bits and the flavor in the high 8 bits. -/
  versionWord : UInt32
  /-- The kinds of table in the order of the directory. -/
  directory : List Table
  /-- The contents of the tables in the order of their offsets. -/
  layout : List Slot
  identifiers : List String
  constants : List Constant
  addresses : List Address
  handles : List ModuleHandle
  /-- The index of the module's own handle, for the versions that write it. -/
  selfHandle : Option UInt16
  deriving DecidableEq

def versionOf (word : UInt32) : Nat := (word &&& 0x00FFFFFF).toNat

namespace Constant

/-- The type of a constant's value, if such values can be read. -/
def valueType? (c : Constant) : Option ValueType := ValueType.ofSignature? c.type

/-- The value of a constant, if its type has values and its bytes are one. -/
def value? (c : Constant) : Option Value :=
  c.valueType?.bind fun type => (Value.decode type c.data).toOption

end Constant

namespace Module

def version (m : Module) : Nat := versionOf m.versionWord

def flavor (m : Module) : UInt8 := (m.versionWord >>> 24).toUInt8

/-- The index of the module's own handle; versions that do not write it use the first. -/
def selfIndex (m : Module) : Nat := (m.selfHandle.getD 0).toNat

/-- The module's own name, found through its own handle. -/
def name? (m : Module) : Option String := do m.identifiers[(← m.handles[m.selfIndex]?).name.toNat]?

def carried? (m : Module) (kind : Table) : Option (List UInt8) :=
  m.layout.findSome? fun
    | .carried table contents => if .carried table = kind then some contents else none
    | .pool _ => none

def constantAt (m : Module) (index : Nat) : Except Error Constant :=
  match m.constants[index]? with
  | some c => .ok c
  | none => .error (.constantIndex index m.constants.length)

def valueAt (m : Module) (index : Nat) : Except Error Value := do
  let c ← m.constantAt index
  match c.valueType? with
  | none => throw (.typeMismatch index (.noValue c.type))
  | some type => (Value.decode type c.data).mapError .malformed

/-- The first way in which a module handle at an index points outside a pool. -/
def danglingHandle? (m : Module) (index : Nat) (h : ModuleHandle) : Option Dangling :=
  if m.identifiers.length ≤ h.name.toNat then
    some (.identifier index h.name.toNat m.identifiers.length)
  else if m.addresses.length ≤ h.address.toNat then
    some (.address index h.address.toNat m.addresses.length)
  else none

/-- How the module's own handle points past the module handles. -/
def danglingSelf? (m : Module) : Option Dangling := do
  let handle ← m.selfHandle
  if m.handles.length ≤ handle.toNat then some (.self handle.toNat m.handles.length) else none

/-- The first reference that points outside its pool; the module's own handle comes last. -/
def dangling? (m : Module) : Option Dangling :=
  (m.handles.zipIdx.findSome? fun (h, index) => m.danglingHandle? index h).or m.danglingSelf?

/-- The module's own name, or what stands for it in a module without one. -/
def nameOrMark (m : Module) : String := m.name?.getD "<unnamed>"

def display (m : Module) : String :=
  s!"module {m.nameOrMark} (v{m.version}, {m.identifiers.length} identifiers, " ++
    s!"{m.constants.length} constants)"

end Module

end Stencil
