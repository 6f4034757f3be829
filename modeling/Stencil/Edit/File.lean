import Stencil.Edit.Plan
import Stencil.Files.Basic
import Stencil.Json.Render
import Stencil.Json.Scan

/-! Edit plans as files. A plan is an object with the fields `constants` and `renames`, each of which may
    be missing; a replacement is an object with four fields, its values being literals. A record may also be
    written as the list of its fields. -/

namespace Stencil

open Json

/-! ### Reading -/

namespace ValueType

def ofField (name : String) : Scan ValueType :=
  match ofName? name with
  | some type => pure type
  | none => throw (.unsuitable none)

/-- The type in a field: its name, or an object whose one member has that name and holds nothing. -/
def scan : Scan ValueType := do
  match ← Scan.peek with
  | none => throw .ended
  | some '"' => ofField (← Scan.text)
  | some '\x7b' => do
    Scan.skip
    let type ← ofField (← Scan.key)
    Scan.colon
    Scan.null
    match ← Scan.peek with
    | none => throw .ended
    | some '\x7d' => do Scan.skip; return type
    | some _ => throw .malformed
  | some _ => throw .malformed

end ValueType

namespace Replacement

structure Fields where
  index : Option Nat
  type : Option ValueType
  expected : Option String
  value : Option String

/-- A member of a replacement. Members that no replacement has are passed over. -/
def Fields.member (f : Fields) (key : String) : Scan Fields :=
  match key with
  | "index" => do Scan.once key f.index; Scan.colon; return { f with index := some (← Scan.whole) }
  | "type" => do Scan.once key f.type; Scan.colon; return { f with type := some (← ValueType.scan) }
  | "expected" => do Scan.once key f.expected; Scan.colon; return { f with expected := some (← Scan.text) }
  | "value" => do Scan.once key f.value; Scan.colon; return { f with value := some (← Scan.text) }
  | _ => do Scan.colon; Scan.ignore; return f

def ofRecord (index : Nat) (type : ValueType) (expected value : String) : Scan Replacement :=
  match parse index type expected value with
  | .ok e => pure e
  | .error error => throw (.unsuitable (some (.literal error)))

/-- A replacement. Its literals are read when the record is complete. -/
def scan : Scan Replacement := do
  match ← Scan.peek with
  | some '[' => do
    Scan.skip
    let index ← Scan.nextItem true Scan.whole
    let type ← Scan.nextItem false ValueType.scan
    let expected ← Scan.nextItem false Scan.text
    let value ← Scan.nextItem false Scan.text
    Scan.endItems
    ofRecord index type expected value
  | none => throw .ended
  | some _ => do
    let f ← Scan.object Fields.member ⟨none, none, none, none⟩
    ofRecord (← Scan.need "index" f.index) (← Scan.need "type" f.type)
      (← Scan.need "expected" f.expected) (← Scan.need "value" f.value)

end Replacement

namespace Renaming

/-- A member of a renaming. Of members with one key the last one counts. -/
def member (r : Renaming) (key : String) : Scan Renaming := do
  Scan.colon
  return r.insert key (← Scan.text)

def scan : Scan Renaming := Scan.object member empty

end Renaming

namespace Plan

structure Fields where
  constants : Option (List Replacement)
  renames : Option Renaming

/-- A member of a plan. Members that no plan has are passed over. -/
def Fields.member (f : Fields) (key : String) : Scan Fields :=
  match key with
  | "constants" => do
    Scan.once key f.constants
    Scan.colon
    return { f with constants := some (← Scan.list Replacement.scan) }
  | "renames" => do
    Scan.once key f.renames
    Scan.colon
    return { f with renames := some (← Renaming.scan) }
  | _ => do Scan.colon; Scan.ignore; return f

/-- The plan whose fields these are. -/
def ofFields (f : Fields) : Plan := ⟨f.constants.getD [], f.renames.getD .empty⟩

def scan : Scan Plan := do
  match ← Scan.peek with
  | some '[' => do
    Scan.skip
    let constants ← Scan.nextItem? true (Scan.list Replacement.scan)
    let renames ← Scan.nextItem? false Renaming.scan
    Scan.endItems
    return ofFields ⟨constants, renames⟩
  | none => throw .ended
  | some _ => return ofFields (← Scan.object Fields.member ⟨none, none⟩)

def ofText : String → Except Json.Fault Plan := scan.run

end Plan

/-! ### Writing -/

def Replacement.record (e : Replacement) : Json.Tree :=
  .object [("index", .whole e.index), ("type", .text e.type.name), ("expected", .text e.expected.display),
    ("value", .text e.value.display)]

def Renaming.record (r : Renaming) : Json.Tree := .object (r.entries.map fun (s, t) => (s, .text t))

namespace Plan

def record (p : Plan) : Json.Tree :=
  .object [("constants", .list (p.constants.map Replacement.record)), ("renames", p.renames.record)]

def toText (p : Plan) : String := p.record.toText

variable {m : Type → Type} [Monad m]

def load (files : FileSystem m) (path : String) : m (Except LoadError Plan) := files.load ofText path

/-- Saves a plan. The directory must be there. -/
def save (files : FileSystem m) (path : String) (p : Plan) : m (Except FileFault Unit) :=
  files.write path (Utf8.encode p.toText)

end Plan

end Stencil
