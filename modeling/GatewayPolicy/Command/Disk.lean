import GatewayPolicy.Command.Path

/-! # Disks

  The command reads and writes files through a `Disk`: the few operations that
  it needs, in any monad. One disk is the machine's; another is a tree of files
  in memory.

  - `Fault` is why an operation failed, `Fault.text` says it in words.
  - `Disk.makeDirectories` makes a directory and all above it.
  - `Disk.walk` goes over a directory and all below it. How a disk does this is its own
    affair; `walkBy` does it for a disk that can only list one directory at a time.
-/

namespace GatewayPolicy

/-- Why a file operation failed. -/
inductive Fault where
  | notFound
  | alreadyExists
  | notDirectory
  | isDirectory
  | nameTooLong
  /-- Any other error of the system, by its number. -/
  | system (number : Nat) (reason : String)
  /-- A file is no text. -/
  | notText
  /-- A name holds a character that ends names. -/
  | zeroInName
  deriving DecidableEq, Repr, Inhabited

namespace Fault

/-- The words for an error of the system. -/
def systemText (number : Nat) (reason : String) : String := s!"{reason} (os error {number})"

/-- The fault in words. -/
def text : Fault → String
  | notFound => systemText 2 "No such file or directory"
  | alreadyExists => systemText 17 "File exists"
  | notDirectory => systemText 20 "Not a directory"
  | isDirectory => systemText 21 "Is a directory"
  | nameTooLong => systemText 36 "File name too long"
  | system number reason => systemText number reason
  | notText => "stream did not contain valid UTF-8"
  | zeroInName => "file name contained an unexpected NUL byte"

/-- The fault of an error number. -/
def ofNumber (number : Nat) (reason : String) : Fault :=
  match number with
  | 2 => notFound
  | 17 => alreadyExists
  | 20 => notDirectory
  | 21 => isDirectory
  | 36 => nameTooLong
  | _ => system number reason

end Fault

/-- What a name in a directory stands for. -/
inductive EntryKind where
  | file
  | directory
  | other
  deriving DecidableEq, Repr, Inhabited

/-- File operations, by path. -/
structure Disk (m : Type → Type) where
  isFile : String → m Bool
  isDirectory : String → m Bool
  /-- The paths of all that lies in a directory and in those below it. A directory that
      cannot be listed is named with the fault. -/
  walk : String → m (Except (String × Fault) (List (String × EntryKind)))
  read : String → m (Except Fault String)
  /-- Makes one directory; the one above it has to be there. -/
  makeDirectory : String → m (Except Fault Unit)
  /-- Writes a file, in place of the one that is there. -/
  write : String → String → m (Except Fault Unit)

namespace Disk

variable {m : Type → Type} [Monad m]

/-- Accepts a fault at a path that is a directory all the same. -/
def unlessDirectory (d : Disk m) (path : String) (fault : Fault) : m (Except Fault Unit) := do
  if ← d.isDirectory path then return .ok () else return .error fault

/-- Makes the first directory of a list. Those after it are the directories
    above it, the nearest first; they are made when they are missing. -/
def makeLineage (d : Disk m) : List String → m (Except Fault Unit)
  | [] => return .ok ()
  | path :: above => do
    match ← d.makeDirectory path with
    | .ok () => return .ok ()
    | .error .notFound => do
      match ← d.makeLineage above with
      | .error fault => return .error fault
      | .ok () => do
        match ← d.makeDirectory path with
        | .ok () => return .ok ()
        | .error fault => d.unlessDirectory path fault
    | .error fault => d.unlessDirectory path fault

/-- Makes a directory and all above it. -/
def makeDirectories (d : Disk m) (path : String) : m (Except Fault Unit) :=
  d.makeLineage (Path.lineage path)

end Disk

/-! ## Walking -/

/-- Inserts an entry by its name. -/
def insertByName (e : String × EntryKind) : List (String × EntryKind) → List (String × EntryKind)
  | [] => [e]
  | f :: fs => if e.1 ≤ f.1 then e :: f :: fs else f :: insertByName e fs

/-- The entries sorted by name. -/
def sortByName : List (String × EntryKind) → List (String × EntryKind)
  | [] => []
  | e :: es => insertByName e (sortByName es)

/-- Walks over a directory and those below it, given what each of them lists. The entries of a
    directory come by name, and what lies in a directory follows it. -/
def walkBy {m : Type → Type} [Monad m]
    (list : String → m (Except Fault (List (String × EntryKind)))) :
    Nat → String → m (Except (String × Fault) (List (String × EntryKind)))
  | 0, path => return .error (path, .nameTooLong)
  | depth + 1, path => do
    match ← list path with
    | .error fault => return .error (path, fault)
    | .ok entries => do
      let found ← (sortByName entries).mapM fun (name, kind) =>
        let place := Path.join path name
        match kind with
        | .directory => do return (← walkBy list depth place).map ((place, kind) :: ·)
        | .file | .other => pure (.ok [(place, kind)])
      return found.foldr (fun r rest => do return (← r) ++ (← rest)) (.ok [])

end GatewayPolicy
