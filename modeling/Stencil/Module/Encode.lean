import Stencil.Module.Basic

/-! The bytes of a module: a mark, the version word, the directory with the offset and length of every
    table, the contents of the tables in the order of their offsets, and for later versions the index
    of the module's own handle. -/

namespace Stencil

def magic : List UInt8 := [0xA1, 0x1C, 0xEB, 0x0B]

/-- The bytes of an identifier: its length and its text. -/
def encodeIdentifier (name : String) : List UInt8 := Uleb128.encode (Utf8.size name) ++ Utf8.encode name

/-- The bytes of a constant: its type, and its data with their length before them. -/
def Constant.encode (c : Constant) : List UInt8 := c.type.encode ++ Uleb128.encode c.data.length ++ c.data

def ModuleHandle.encode (h : ModuleHandle) : List UInt8 :=
  Uleb128.encode h.address.toNat ++ Uleb128.encode h.name.toNat

/-- A table as its directory entry lists it. -/
structure Placement where
  kind : Table
  offset : Nat
  length : Nat
  deriving DecidableEq, Repr

def Placement.encode (p : Placement) : List UInt8 :=
  p.kind.code :: (Uleb128.encode p.offset ++ Uleb128.encode p.length)

namespace Module

def encodePool (m : Module) : Pool → List UInt8
  | .identifiers => m.identifiers.flatMap encodeIdentifier
  | .constants => m.constants.flatMap Constant.encode
  | .addresses => m.addresses.flatMap Address.bytes
  | .moduleHandles => m.handles.flatMap ModuleHandle.encode

def encodeSlot (m : Module) : Slot → List UInt8
  | .pool pool => m.encodePool pool
  | .carried _ contents => contents

/-- The contents of every table in the order of their offsets. -/
def tables (m : Module) : List (Table × List UInt8) := m.layout.map fun s => (s.kind, m.encodeSlot s)

/-- Where tables stand that follow one another from an offset on. -/
def placements (offset : Nat) : List (Table × List UInt8) → List Placement
  | [] => []
  | (kind, contents) :: rest =>
    ⟨kind, offset, contents.length⟩ :: placements (offset + contents.length) rest

def findPlacement (placed : List Placement) (kind : Table) : Except Error Placement :=
  match placed.find? (·.kind == kind) with
  | some p => .ok p
  | none => .error (.malformed ⟨0, .missingTable kind⟩)

def encode (m : Module) : Except Error (List UInt8) := do
  let tables := m.tables
  if let some (kind, _) := tables.find? (maxLength < ·.2.length) then
    throw (.malformed ⟨0, .tableTooLarge kind⟩)
  let contents := tables.flatMap (·.2)
  if maxLength < contents.length then throw (.malformed ⟨0, .contentsTooLarge⟩)
  let entries ← m.directory.mapM (findPlacement (placements 0 tables))
  return magic ++ LittleEndian.encode 4 m.versionWord.toNat ++ Uleb128.encode m.directory.length ++
    entries.flatMap Placement.encode ++ contents ++
    (match m.selfHandle with
     | some handle => Uleb128.encode handle.toNat
     | none => [])

end Module

end Stencil
