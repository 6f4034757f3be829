import Stencil.Files.Basic
import Stencil.Json.Render
import Stencil.Json.Scan

/-! Publish bundles: what is handed to whoever publishes a package. A bundle lists modules in the order
    of their publication, as hexadecimal text, and the packages on which they depend. -/

namespace Stencil

/-- A publish bundle. -/
structure Bundle where
  modules : List String
  dependencies : List String
  deriving DecidableEq, Repr

namespace Bundle

/-- The packages on which every token depends. -/
def frameworkPackages : List String := ["0x1", "0x2"]

/-- The bundle of a module and its companions, whose dependencies are spelled in full. -/
def ofModules (stamped : List UInt8) (companions : List (List UInt8)) (dependencies : List String) :
    Except LiteralError Bundle := do
  return { modules := (stamped :: companions).map Hex.encode,
           dependencies := ← dependencies.mapM Address.normalize }

def hexMessage : Hex.Fault → String
  | .oddLength => "Odd number of digits"
  | .invalid byte index => s!"Invalid character {Quoted.char (Char.ofNat byte.toNat)} at position {index}"

def moduleBytes (text : String) (index : Nat) : Except LiteralError (List UInt8) :=
  (Hex.decode (Utf8.encode text)).mapError fun fault => .invalid (.bundledModule index) (hexMessage fault)

def bytes (b : Bundle) : Except LiteralError (List (List UInt8)) :=
  b.modules.zipIdx.mapM fun (text, index) => moduleBytes text index

/-! ### Files -/

open Json

structure Fields where
  modules : Option (List String)
  dependencies : Option (List String)

/-- A member of a bundle. Members that no bundle has are passed over. -/
def Fields.member (f : Fields) (key : String) : Scan Fields :=
  match key with
  | "modules" => do
    Scan.once key f.modules
    Scan.colon
    return { f with modules := some (← Scan.list Scan.text) }
  | "dependencies" => do
    Scan.once key f.dependencies
    Scan.colon
    return { f with dependencies := some (← Scan.list Scan.text) }
  | _ => do Scan.colon; Scan.ignore; return f

def scan : Scan Bundle := do
  match ← Scan.peek with
  | some '[' => do
    Scan.skip
    let modules ← Scan.nextItem true (Scan.list Scan.text)
    let dependencies ← Scan.nextItem false (Scan.list Scan.text)
    Scan.endItems
    return { modules, dependencies }
  | none => throw .ended
  | some _ => do
    let f ← Scan.object Fields.member ⟨none, none⟩
    return { modules := ← Scan.need "modules" f.modules,
             dependencies := ← Scan.need "dependencies" f.dependencies }

def ofText : String → Except Json.Fault Bundle := scan.run

def record (b : Bundle) : Json.Tree :=
  .object [("modules", .list (b.modules.map .text)), ("dependencies", .list (b.dependencies.map .text))]

def toText (b : Bundle) : String := b.record.toText

variable {m : Type → Type} [Monad m]

def load (files : FileSystem m) (path : String) : m (Except LoadError Bundle) := files.load ofText path

/-- Saves a bundle, and makes the directories that it lies in. -/
def save (files : FileSystem m) (path : String) (b : Bundle) : m (Except FileFault Unit) := do
  match ← files.makeParents path with
  | .error fault => return .error fault
  | .ok () => files.write path (Utf8.encode b.toText)

end Bundle

end Stencil
