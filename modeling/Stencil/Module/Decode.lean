import Stencil.Module.Encode

/-! Reading a module from its bytes. -/

namespace Stencil

def readIdentifier : Read String := do
  let size ← Uleb128.read maxIdentifierLength
  let start ← Read.offset
  match Utf8.decode (← Read.bytes size) with
  | .ok name => return name
  | .error fault => Read.failAt start (.identifierNotText fault)

def Constant.read : Read Constant := do
  let type ← Signature.read
  let size ← Uleb128.read maxLength
  return { type, data := ← Read.bytes size }

/-- A module handle. -/
def ModuleHandle.read : Read ModuleHandle := do
  let address ← Uleb128.read16
  return { address, name := ← Uleb128.read16 }

theorem progress_readIdentifier : Read.Progress readIdentifier := by
  refine (Uleb128.progress_read _).bind fun size => Read.advances_offset.bind fun start =>
    (Read.advances_bytes size).bind fun bytes => ?_
  split
  · exact Read.advances_pure _
  · exact (Read.progress_failAt _ _).advances

theorem Constant.progress_read : Read.Progress Constant.read :=
  Signature.progress_read.bind fun _ => (Uleb128.progress_read _).advances.bind fun size =>
    (Read.advances_bytes size).bind fun _ => Read.advances_pure _

theorem ModuleHandle.progress_read : Read.Progress ModuleHandle.read :=
  Uleb128.progress_read16.bind fun _ => Uleb128.progress_read16.advances.bind fun _ => Read.advances_pure _

/-- A directory entry and the offset at which it stands. -/
structure Entry extends Placement where
  place : Nat
  deriving DecidableEq, Repr

namespace Entry

/-- A directory entry of another kind than those seen before. -/
def read (seen : List Table) : Read Entry := do
  let place ← Read.offset
  let code ← Read.byte
  match Table.ofCode? code with
  | none => Read.failAt place (.unknownTable code)
  | some kind =>
    if kind ∈ seen then Read.failAt place (.duplicateTable kind)
    else
      let offset ← Uleb128.read maxLength
      let length ← Uleb128.read maxLength
      return { kind, offset, length, place }

/-- As many directory entries as `count` says, each of another kind. -/
def readAll (seen : List Table) : (count : Nat) → Read (List Entry)
  | 0 => return []
  | count + 1 => do
    let entry ← read seen
    return entry :: (← readAll (entry.kind :: seen) count)

/-- Tables are ordered by offset. Of two at one offset the shorter comes first, so that empty tables
    stand before the table with which they share their offset. -/
def precedes (a b : Entry) : Bool := a.offset < b.offset || (a.offset == b.offset && a.length ≤ b.length)

/-- Puts an entry before the first that it precedes. -/
def insert (entry : Entry) : List Entry → List Entry
  | [] => [entry]
  | first :: rest => if precedes entry first then entry :: first :: rest else first :: insert entry rest

/-- Entries in the order of their tables. Where neither of two precedes the other alone, they keep the
    order in which they are listed. -/
def arrange (entries : List Entry) : List Entry := entries.foldr insert []

/-- The end of tables that follow one another from `expected` on; fails at the first that does not. -/
def checkOffsets (expected : Nat) : List Entry → Read Nat
  | [] => return expected
  | entry :: rest =>
    if entry.offset = expected then checkOffsets (expected + entry.length) rest
    else Read.failAt entry.place (.misplacedTable entry.kind entry.offset expected)

end Entry

namespace Module

/-- Fills a pool of a module with the records of a table. -/
def readPool (m : Module) : Pool → Read Module
  | .identifiers => do
    return { m with identifiers := ← Read.toEnd readIdentifier progress_readIdentifier }
  | .constants => do return { m with constants := ← Read.toEnd Constant.read Constant.progress_read }
  | .addresses => do
    let contents ← get
    let length := contents.rest.length
    if length % addressLength ≠ 0 then Read.fail (.brokenAddresses length)
    else return { m with addresses := ← Read.toEnd Address.read Address.progress_read }
  | .moduleHandles => do
    return { m with handles := ← Read.toEnd ModuleHandle.read ModuleHandle.progress_read }

def readTable (m : Module) (entry : Entry) : Read Module := do
  let offset ← Read.offset
  let contents ← Read.bytes entry.length
  match entry.kind with
  | .pool pool =>
    let m ← Read.inside { rest := contents, offset } (m.readPool pool)
    return { m with layout := m.layout ++ [.pool pool] }
  | .carried table => return { m with layout := m.layout ++ [.carried table contents] }

/-- Adds the contents of tables that follow one another up to `total`. -/
def readTables (m : Module) (placed : List Entry) (total : Nat) : Read Module := do
  let left := (← get).rest.length
  if left < total then Read.fail (.tablesTooLong total left) else placed.foldlM readTable m

/-- The index of a module's own handle, for the versions that write it. -/
def readSelfHandle (version : Nat) : Read (Option UInt16) :=
  if selfHandleVersion ≤ version then some <$> Uleb128.read16 else pure none

/-- The part of a module that follows its directory. -/
def readListed (versionWord : UInt32) (entries : List Entry) : Read Module := do
  let placed := Entry.arrange entries
  let total ← Entry.checkOffsets 0 placed
  let empty : Module :=
    { versionWord, directory := entries.map (·.kind), layout := [], identifiers := [], constants := [],
      addresses := [], handles := [], selfHandle := none }
  let m ← empty.readTables placed total
  let selfHandle ← readSelfHandle (versionOf versionWord)
  Read.finish "module"
  return { m with selfHandle }

/-- The part of a module that follows its version word. -/
def readBody (versionWord : UInt32) : Read Module := do
  let count ← Uleb128.read 0xFF
  readListed versionWord (← Entry.readAll [] count)

def readVersionWord : Read UInt32 := do
  let start ← Read.offset
  if (← Read.bytes magic.length) = magic then Read.word32 else Read.failAt start .badMagic

/-- The module whose bytes these are. -/
def decode (bytes : List UInt8) : Except Error Module :=
  match readVersionWord { rest := bytes } with
  | .error fault _ => .error (.malformed fault)
  | .ok word body =>
    let version := versionOf word
    if version = 0 ∨ maxVersion < version then .error (.unsupportedVersion version)
    else ((readBody word).value body).mapError .malformed

end Module

end Stencil
