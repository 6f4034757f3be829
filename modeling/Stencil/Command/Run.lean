import Stencil.Bundle
import Stencil.Bytes.Sha256
import Stencil.Command.Arguments
import Stencil.Command.Report
import Stencil.Edit.File

/-! What the program does on a request. A request works on files that are given to it, prints lines, and
    ends well or fails. -/

namespace Stencil.Command

variable {m : Type → Type} [Monad m] {α : Type}

/-- Work that prints lines and may fail; what it printed before it failed stays. -/
abbrev Session (m : Type → Type) (α : Type) := ExceptT Failure (StateT (List String) m) α

namespace Session

def print (lines : List String) : Session m Unit := fun printed => return (.ok (), printed ++ lines)

def fail (failure : Failure) : Session m α := throw failure

/-- Work on files, whose fault is a failure. -/
def file (work : m (Except FileFault α)) (failure : FileFault → Failure) : Session m α := do
  match ← (work : Session m (Except FileFault α)) with
  | .ok a => return a
  | .error fault => fail (failure fault)

def result {ε : Type} (r : Except ε α) (failure : ε → Failure) : Session m α :=
  match r with
  | .ok a => return a
  | .error e => fail (failure e)

end Session

open Session

/-- The bytes of a module in a file, and the module. -/
def readModule (files : FileSystem m) (path : String) : Session m (List UInt8 × Module) := do
  let bytes ← file (files.read path) (.unreadable path)
  return (bytes, ← result (Module.decode bytes) (.notModule path))

/-- The line of a constant: its type and its value, or what can be said without a value. -/
def describeConstant (m : Module) (index : Nat) (c : Constant) : String :=
  entry index (match m.valueAt index with
    | .ok v => v.type.name ++ " = " ++ v.display
    | .error _ => s!"{c.type.display} ({c.data.length} bytes, not editable)")

/-- The lines that describe a module in a file. -/
def describe (path : String) (size : Nat) (m : Module) : List String :=
  [keyValue "File" path, keyValue "Size" s!"{size} bytes", keyValue "Version" (Nat.repr m.version)] ++
    (if m.flavor = 0 then [] else [keyValue "Flavor" s!"0x{Hex.encode [m.flavor]}"]) ++
    [keyValue "Name" m.nameOrMark, "", s!"Identifiers ({m.identifiers.length})"] ++
    m.identifiers.zipIdx.map (fun (name, index) => entry index name) ++
    ["", s!"Constants ({m.constants.length})"] ++
    m.constants.zipIdx.map (fun (c, index) => describeConstant m index c)

/-- Shows what can be edited in a module. -/
def inspect (files : FileSystem m) (path : String) : Session m Unit := do
  print (title "inspect")
  let (bytes, module) ← readModule files path
  print (describe path bytes.length module)

/-- Writes the bundle of a module and perhaps a companion, which is read only now. -/
def writeBundle (files : FileSystem m) (bytes : List UInt8) (dependency : Option String) (path : String) :
    Session m Unit := do
  let companions ← match dependency with
    | some path => do pure [← file (files.read path) (.unreadable path)]
    | none => pure []
  let bundle ← result (Bundle.ofModules bytes companions Bundle.frameworkPackages) (.refused ∘ .literal)
  file (bundle.save files path) .file
  print [keyValue "Bundle" path]

def stamp (files : FileSystem m) (o : StampOptions) : Session m Unit := do
  print (title "stamp")
  let total := if o.bundle.isSome then 4 else 3
  print [step 1 total "Decoding template..."]
  let (template, module) ← readModule files o.template
  print [keyValue "Template" module.display, step 2 total "Applying edit plan..."]
  let plan ← result (← (Plan.load files o.plan : m _)) .notLoaded
  if plan.isEmpty then print [warning "Edit plan is empty; output will equal the template"]
  let stamped ← result (plan.apply module) .refused
  print [keyValue "Stamped" stamped.display]
  let bytes ← result stamped.encode .refused
  print [step 3 total "Writing module..."]
  file (files.makeParents o.output) .file
  file (files.write o.output bytes) (.unwritable o.output)
  match o.bundle with
  | some path => do
    print [step 4 total "Writing publish bundle..."]
    writeBundle files bytes o.dependency path
  | none =>
    if o.dependency.isSome then print [warning "--dependency is only used together with --bundle"]
  print
    [done "Module stamped", keyValue "Output" o.output,
     keyValue "Size" s!"{bytes.length} bytes ({sizeChange template.length bytes.length})",
     keyValue "SHA-256" (Hex.encode (Sha256.digest bytes))]

def plan (files : FileSystem m) (o : PlanOptions) : Session m Unit := do
  print (title "plan")
  let plan ← match o.template with
    | some path => do
      let (_, module) ← readModule files path
      print [keyValue "Defaults from" module.display]
      result (o.params.planFor module) .refused
    | none => result o.params.plan .refused
  file (plan.save files o.output) .file
  print
    ([done "Edit plan written", keyValue "Plan" o.output,
      keyValue "Constant edits" (Nat.repr plan.constants.length)] ++
      plan.renames.entries.map fun (source, target) => keyValue "Rename" (source ++ " -> " ++ target))

def versionLine (verb : Option Verb) : String :=
  programName ++ ((verb.map fun v => "-" ++ v.name).getD "") ++ " " ++ programVersion

/-- Does what is asked for. The text of help is left out. -/
def perform (files : FileSystem m) : Request → Session m Unit
  | .help => pure ()
  | .version verb => print [versionLine verb]
  | .inspect path => inspect files path
  | .stamp options => stamp files options
  | .plan options => plan files options

/-- How the program ended: what it printed, and why it failed, if it did. -/
inductive Outcome where
  /-- The command line was not understood, and nothing was done. -/
  | misused
  | ended (printed : List String) (failure : Option Failure)

/-- The exit status of the program. -/
def Outcome.exit : Outcome → Nat
  | .misused => 2
  | .ended _ (some _) => 1
  | .ended _ none => 0

def Outcome.output : Outcome → String
  | .misused => ""
  | .ended printed _ => String.join (printed.map (· ++ "\n"))

/-- Runs the program on files with given arguments. -/
def run (files : FileSystem m) (args : List String) : m Outcome := do
  match Request.ofArguments? args with
  | none => return .misused
  | some request =>
    match ← (perform files request).run [] with
    | (.ok (), printed) => return .ended printed none
    | (.error failure, printed) => return .ended printed (some failure)

end Stencil.Command
