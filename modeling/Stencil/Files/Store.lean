import Stencil.Files.Basic

/-! Files held in memory. A path begins at one directory or, with a slash, at the root. The directories
    above the former are there, and their places are written as the steps that lead up to them; what
    they and the root hold is known as far as it has been written. -/

namespace Stencil

inductive Item where
  | file (bytes : List UInt8)
  | directory
  deriving DecidableEq, Repr

/-- Files and directories by the names that lead to them. -/
structure Store where
  items : List (List String × Item)
  deriving DecidableEq, Repr

namespace Store

def empty : Store := ⟨[]⟩

/-- The place where paths that begin with a slash begin. -/
def root : List String := ["/"]

/-- Whether a place leads upwards only. -/
def isUpward (place : List String) : Bool := place.all (· == "..")

/-- What stands at a place. The places where paths begin are directories, and so are those above. -/
def get? (s : Store) (place : List String) : Option Item :=
  if place = root || isUpward place then some .directory else s.items.lookup place

/-- The place above a place. Above the root is the root. -/
def above (place : List String) : List String :=
  if place = root then root else if isUpward place then place ++ [".."] else place.dropLast

/-- The store with an item put at a place. -/
def put (s : Store) (place : List String) (item : Item) : Store :=
  ⟨if s.items.any (·.1 == place) then s.items.map fun e => if e.1 = place then (place, item) else e
   else s.items ++ [(place, item)]⟩

/-- Where a path leads from a directory; all parts of it must be directories. -/
def walk (s : Store) (place : List String) : List String → Except FileFault (List String)
  | [] => .ok place
  | ".." :: parts => walk s (above place) parts
  | part :: parts =>
    match s.get? (place ++ [part]) with
    | none => .error .notFound
    | some (.file _) => .error .notDirectory
    | some .directory => walk s (place ++ [part]) parts

/-- Where a path leads: the directory that its last part lies in, and that part. A path that ends with a
    dot or two, or has no parts, leads to a directory itself. Nothing has the empty path. -/
def resolve (s : Store) (path : String) : Except FileFault (List String × Option String) :=
  let start := if path.startsWith "/" then root else []
  if path = "" then .error .notFound
  else match (Path.written path).getLast? with
    | none | some "." | some ".." => do return (← s.walk start (Path.parts path), none)
    | some name => do return (← s.walk start (Path.parts path).dropLast, some name)

def read (s : Store) (path : String) : Except FileFault (List UInt8) := do
  match ← s.resolve path with
  | (_, none) => throw .isDirectory
  | (dir, some name) =>
    match s.get? (dir ++ [name]) with
    | none => throw .notFound
    | some .directory => throw .isDirectory
    | some (.file bytes) => if path.endsWith "/" then throw .notDirectory else return bytes

/-- The store in which a file holds given bytes. No file is made at a path that ends with a slash. -/
def write (s : Store) (path : String) (bytes : List UInt8) : Except FileFault Store := do
  match ← s.resolve path with
  | (_, none) => throw .isDirectory
  | (dir, some name) =>
    if path.endsWith "/" || s.get? (dir ++ [name]) = some .directory then throw .isDirectory
    else return s.put (dir ++ [name]) (.file bytes)

def isDirectory (s : Store) (path : String) : Bool :=
  match s.resolve path with
  | .ok (_, none) => true
  | .ok (dir, some name) => s.get? (dir ++ [name]) = some .directory
  | .error _ => false

def makeDirectory (s : Store) (path : String) : Except FileFault Store := do
  match ← s.resolve path with
  | (_, none) => throw .occupied
  | (dir, some name) =>
    match s.get? (dir ++ [name]) with
    | some _ => throw .occupied
    | none => return s.put (dir ++ [name]) .directory

/-- Changes the store, unless the change fails. -/
def change (f : Store → Except FileFault Store) : StateM Store (Except FileFault Unit) := fun s =>
  match f s with
  | .ok s' => (.ok (), s')
  | .error fault => (.error fault, s)

/-- The store as files that can be worked with. -/
def files : FileSystem (StateM Store) where
  read path := fun s => (s.read path, s)
  write path bytes := change fun s => s.write path bytes
  makeDirectory path := change fun s => s.makeDirectory path
  isDirectory path := fun s => (s.isDirectory path, s)

/-- The store with a file or a directory, and all directories that it lies in. -/
def place (s : Store) (path : String) (item : Item) : Store :=
  let parts := Path.parts path
  let dirs := (List.range parts.length).map (parts.take ·) |>.filter (· ≠ [])
  (dirs.foldl (fun s dir => if (s.get? dir).isNone then s.put dir .directory else s) s).put parts item

/-- The files of a later store that are new or hold other bytes than before, as far as they lie below
    the directory where paths without a slash in front begin. -/
def changed (before after : Store) : List (String × List UInt8) :=
  after.items.filterMap fun (place, item) =>
    match item with
    | .directory => none
    | .file bytes =>
      if place.head? = some ".." || place.head? = some "/" || before.get? place = some item then none
      else some ("/".intercalate place, bytes)

end Store

end Stencil
