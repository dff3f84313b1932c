import GatewayPolicy.Command.Run

/-! # The program

  The command on the machine's own disk.
-/

namespace GatewayPolicy

/-- The fault that an error of the system is. -/
def faultOfError : IO.Error → Fault
  | .alreadyExists _ number reason | .invalidArgument _ number reason
  | .permissionDenied _ number reason | .resourceExhausted _ number reason
  | .inappropriateType _ number reason | .noSuchThing _ number reason
  | .noFileOrDirectory _ number reason | .interrupted _ number reason
  | .otherError number reason | .resourceBusy number reason
  | .resourceVanished number reason | .unsupportedOperation number reason
  | .hardwareFault number reason | .unsatisfiedConstraints number reason
  | .illegalOperation number reason | .protocolError number reason
  | .timeExpired number reason => .ofNumber number.toNat reason
  | .unexpectedEof => .system 0 "unexpected end of file"
  | .userError reason => .system 0 reason

/-- An action with the fault that it failed with. -/
def attempting {α : Type} (action : IO α) : IO (Except Fault α) :=
  try return .ok (← action) catch e => return .error (faultOfError e)

/-- What a path leads to, a link followed. -/
def kindAt (path : String) : IO EntryKind := do
  match ← attempting do ((← IO.currentDir) / path).metadata with
  | .error _ => return .other
  | .ok found =>
    match found.type with
    | .file => return .file
    | .dir => return .directory
    | _ => return .other

/-- What a name in a directory is, a link not followed. -/
def kindWithin (directory name : String) : IO EntryKind := do
  let found ← ((← IO.currentDir) / directory / name).symlinkMetadata
  match found.type with
  | .file => return .file
  | .dir => return .directory
  | _ => return .other

/-- Lists a directory. -/
def listDirectory (path : String) : IO (List (String × EntryKind)) := do
  let found ← ((← IO.currentDir) / path).readDir
  found.toList.mapM fun e => do return (e.fileName, ← kindWithin path e.fileName)

/-- Reads a file as a text. -/
def readText (path : String) : IO (Except Fault String) := do
  match ← attempting (IO.FS.readBinFile path) with
  | .error fault => return .error fault
  | .ok content =>
    match String.fromUTF8? content with
    | none => return .error .notText
    | some text => return .ok text

/-- Writes a file. -/
def writeText (path text : String) : IO (Except Fault Unit) :=
  if path.toList.contains '\x00' then return .error .zeroInName
  else attempting (IO.FS.writeBinFile path text.toUTF8)

/-- The machine's disk. -/
def machine : Disk IO where
  isFile path := return (← kindAt path) == .file
  isDirectory path := return (← kindAt path) == .directory
  walk := walkBy (fun path => attempting (listDirectory path)) FileTree.pathLimit
  read := readText
  makeDirectory path := attempting (IO.FS.createDir path)
  write := writeText

/-- What is printed when the command line is refused. -/
def usage : String :=
  "Usage: tollgate version\n" ++
  "       tollgate compile [SOURCE] [-o DIRECTORY] [--format] [--indent WIDTH] [--json] [--no-fail]\n"

end GatewayPolicy

/-- Runs the command line. -/
def main (arguments : List String) : IO UInt32 := do
  let outcome ← GatewayPolicy.run GatewayPolicy.machine (← IO.getEnv "TOLLGATE_OUTPUT") arguments
  match outcome with
  | .refused => (← IO.getStderr).putStr GatewayPolicy.usage
  | .finished printed _ => (← IO.getStdout).putStr printed
  (← IO.getStderr).putStr outcome.errorText
  return outcome.exitCode.toUInt32
