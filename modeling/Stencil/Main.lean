import Stencil.Command.Run

/-! The program: requests from the command line, worked on the files of the system. -/

namespace Stencil

/-- The fault of an error of the system, by its number. -/
def FileFault.ofSystem (text : String) (code : UInt32) : FileFault :=
  if code = 2 then .notFound
  else if code = 17 then .occupied
  else if code = 20 then .notDirectory
  else if code = 21 then .isDirectory
  else .other text code.toNat

def FileFault.ofError : IO.Error → FileFault
  | .alreadyExists _ code text | .otherError code text | .resourceBusy code text
  | .resourceVanished code text | .unsupportedOperation code text | .hardwareFault code text
  | .unsatisfiedConstraints code text | .illegalOperation code text | .protocolError code text
  | .timeExpired code text | .interrupted _ code text | .noFileOrDirectory _ code text
  | .invalidArgument _ code text | .permissionDenied _ code text | .resourceExhausted _ code text
  | .inappropriateType _ code text | .noSuchThing _ code text => .ofSystem text code
  | .unexpectedEof => .other "unexpected end of file" 0
  | .userError text => .other text 0

/-- An action on the system's files with its fault. -/
def attempt {α : Type} (action : IO α) : IO (Except FileFault α) := do
  try
    return .ok (← action)
  catch error =>
    return .error (.ofError error)

def systemFiles : FileSystem IO where
  read path := attempt do return (← IO.FS.readBinFile path).toList
  write path bytes := attempt (IO.FS.writeBinFile path bytes.toByteArray)
  makeDirectory path := attempt (IO.FS.createDir path)
  isDirectory path := do
    try
      (← IO.FS.realPath path).isDir
    catch _ =>
      return false

end Stencil

def main (args : List String) : IO UInt32 := do
  let outcome ← Stencil.Command.run Stencil.systemFiles args
  IO.print outcome.output
  match outcome with
  | .misused => IO.eprintln "usage: move-stamp (inspect | stamp | plan) [options]"
  | .ended _ (some failure) => IO.eprint failure.report
  | .ended _ none => pure ()
  return UInt32.ofNat outcome.exit
