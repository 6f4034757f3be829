import Stencil.Json.Fault

/-! Files, as far as they are needed: what can be asked of them, and what can go wrong. -/

namespace Stencil

/-- Why a file or a directory is not to be had. -/
inductive FileFault where
  | notFound
  | occupied
  /-- A file stands where the path needs a directory. -/
  | notDirectory
  /-- A directory stands where a file is needed. -/
  | isDirectory
  | notText
  /-- Another reason, as the system words and numbers it. -/
  | other (text : String) (code : Nat)
  deriving DecidableEq, Repr

def FileFault.message : FileFault → String
  | .notFound => "No such file or directory (os error 2)"
  | .occupied => "File exists (os error 17)"
  | .notDirectory => "Not a directory (os error 20)"
  | .isDirectory => "Is a directory (os error 21)"
  | .notText => "stream did not contain valid UTF-8"
  | .other text code => s!"{text} (os error {code})"

/-- What can be done with files. -/
structure FileSystem (m : Type → Type) where
  read : String → m (Except FileFault (List UInt8))
  /-- Makes a file hold given bytes, whatever it held before. -/
  write : String → List UInt8 → m (Except FileFault Unit)
  /-- Makes a directory; nothing may have its path yet, and the directory that it lies in must be there. -/
  makeDirectory : String → m (Except FileFault Unit)
  /-- Whether a path is that of a directory. -/
  isDirectory : String → m Bool

inductive LoadError where
  | unreadable (path : String) (fault : FileFault)
  | unparsable (path : String) (fault : Json.Fault)
  deriving DecidableEq, Repr

def LoadError.message : LoadError → String
  | .unreadable path _ => s!"config file not found at {path}"
  | .unparsable path _ => s!"failed to parse config at {path}"

def LoadError.cause : LoadError → String
  | .unreadable _ fault => fault.message
  | .unparsable _ fault => fault.message

namespace Path

/-- What stands between the slashes of a path. -/
def pieces : List Char → List (List Char)
  | [] => [[]]
  | c :: rest =>
    match c, pieces rest with
    | '/', found => [] :: found
    | c, first :: found => (c :: first) :: found
    | c, [] => [[c]]

/-- The parts of a path as they are written, be there one slash between two of them or more. -/
def written (path : String) : List String :=
  ((pieces path.toList).map String.ofList).filter (· ≠ "")

/-- The parts of a path that lead anywhere. A dot stays where it is, so it is left out. -/
def parts (path : String) : List String := (written path).filter (· ≠ ".")

/-- The path with given parts, which begins where another path does. -/
def join (like : String) (parts : List String) : String :=
  (if like.startsWith "/" then "/" else "") ++ "/".intercalate parts

/-- The parts of the path of the directory that a path lies in. -/
def parentParts (path : String) : List String := (parts path).dropLast

end Path

namespace FileSystem

variable {m : Type → Type} [Monad m] {α : Type}

/-- Loads a value from a file that holds its text. -/
def load (files : FileSystem m) (parse : String → Except Json.Fault α) (path : String) :
    m (Except LoadError α) := do
  match ← files.read path with
  | .error fault => return .error (.unreadable path fault)
  | .ok bytes =>
    match Utf8.decode bytes with
    | .error _ => return .error (.unreadable path .notText)
    | .ok text => return (parse text).mapError (.unparsable path)

/-- Makes a directory and all those that it lies in, as far as they are not there. The parts of its path
    are given from the last to the first. Only if one that it lies in is missing is that one made first. -/
def makeAll (files : FileSystem m) (like : String) : List String → m (Except FileFault Unit)
  | [] => return .ok ()
  | part :: outer => do
    let path := Path.join like (part :: outer).reverse
    let orThere (fault : FileFault) : m (Except FileFault Unit) := do
      return if ← files.isDirectory path then .ok () else .error fault
    match ← files.makeDirectory path with
    | .ok () => return .ok ()
    | .error .notFound =>
      match ← makeAll files like outer with
      | .error fault => return .error fault
      | .ok () =>
        match ← files.makeDirectory path with
        | .ok () => return .ok ()
        | .error fault => orThere fault
    | .error fault => orThere fault

/-- Makes the directories that a path lies in. -/
def makeParents (files : FileSystem m) (path : String) : m (Except FileFault Unit) :=
  files.makeAll path (Path.parentParts path).reverse

end FileSystem

end Stencil
