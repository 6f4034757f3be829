import Stencil.Files.Basic
import Stencil.Module.Basic

/-! What the program prints: the lines on its way, and the reason why it failed. -/

namespace Stencil.Command

/-! ### Lines -/

def programName : String := "move-stamp"

def programVersion : String := "0.1.0"

def keyWidth : Nat := 16

/-- Text followed by blanks up to a width. -/
def padded (width : Nat) (s : String) : String :=
  s ++ String.ofList (List.replicate (width - s.length) ' ')

/-- The title of a request, and a line under it. -/
def title (verb : String) : List String :=
  let text := programName ++ " " ++ verb
  ["", text, String.ofList (List.replicate (Utf8.size text) '-')]

/-- A step on the way. -/
def step (number total : Nat) (text : String) : String := s!"({number}/{total}) {text}"

/-- A key and its value, with the values in one column. -/
def keyValue (key value : String) : String := "  " ++ padded keyWidth (key ++ ":") ++ " " ++ value

def entry (index : Nat) (text : String) : String := s!"  [{index}] {text}"

/-- The end of all that was asked for. -/
def done (text : String) : String := "done " ++ text

/-- Something that the user may not have meant. -/
def warning (text : String) : String := "warning: " ++ text

/-- How much longer or shorter something has become. -/
def sizeChange (before after : Nat) : String :=
  if before ≤ after then s!"+{after - before} bytes" else s!"-{before - after} bytes"

/-! ### Failures -/

inductive Failure where
  | unreadable (path : String) (fault : FileFault)
  | unwritable (path : String) (fault : FileFault)
  | notModule (path : String) (error : Error)
  | notLoaded (error : LoadError)
  | refused (error : Error)
  /-- Another file or directory is not to be had. -/
  | file (fault : FileFault)

def Failure.message : Failure → String
  | .unreadable path _ => s!"failed to read {path}"
  | .unwritable path _ => s!"failed to write {path}"
  | .notModule path _ => s!"{path} is not a valid module"
  | .notLoaded error => error.message
  | .refused error => error.message
  | .file fault => fault.message

/-- The wording of what caused a failure, if that is not said already. -/
def Failure.cause? : Failure → Option String
  | .unreadable _ fault | .unwritable _ fault => some fault.message
  | .notModule _ error => some error.message
  | .notLoaded error => some error.cause
  | .refused _ | .file _ => none

/-- What is reported of a failure. -/
def Failure.report (failure : Failure) : String :=
  "Error: " ++ failure.message ++
    (match failure.cause? with
     | some cause => "\n\nCaused by:\n    " ++ cause
     | none => "") ++ "\n"

end Stencil.Command
