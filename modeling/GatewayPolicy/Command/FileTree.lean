import GatewayPolicy.Command.Disk

/-! # Trees of files

  A disk in memory: a tree of directories with files in it, and the place that
  relative paths start at. Paths are followed name by name, so every name but
  the last has to be a directory.
-/

namespace GatewayPolicy

/-- A file, or a directory with entries of distinct names. -/
inductive FileTree where
  | file (content : ByteArray)
  | directory (entries : List (String × FileTree))
  deriving Inhabited

namespace FileTree

/-- The longest name. -/
def nameLimit : Nat := 255

/-- The longest path. -/
def pathLimit : Nat := 4095

/-- Sets an entry of a list: in place of the one of its name, or at the end. -/
def setEntry (name : String) (t : FileTree) : List (String × FileTree) → List (String × FileTree)
  | [] => [(name, t)]
  | e :: es => if e.1 == name then (name, t) :: es else e :: setEntry name t es

/-- The tree at a place, given by the names on the way to it. -/
def at? (t : FileTree) : List String → Option FileTree
  | [] => some t
  | n :: ns =>
    match t with
    | file _ => none
    | directory entries => (entries.lookup n).bind (·.at? ns)

/-- Puts a tree at a place. The directories on the way have to be there. -/
def put (t new : FileTree) : List String → FileTree
  | [] => new
  | n :: ns =>
    match t with
    | file content => file content
    | directory entries =>
      directory (setEntry n (((entries.lookup n).getD (directory [])).put new ns) entries)

/-- Puts a tree at a place, and makes the directories on the way. -/
def graft (t new : FileTree) : List String → FileTree
  | [] => new
  | n :: ns =>
    let entries := match t with
      | file _ => []
      | directory entries => entries
    directory (setEntry n (((entries.lookup n).getD (directory [])).graft new ns) entries)

/-- Follows the steps of a path from a place. -/
def follow (t : FileTree) (place : List String) : List String → Except Fault (List String)
  | [] => .ok place
  | step :: steps =>
    match t.at? place with
    | none => .error .notFound
    | some (file _) => .error .notDirectory
    | some (directory entries) =>
      if step == "." then t.follow place steps
      else if step == ".." then t.follow place.dropLast steps
      else if nameLimit < step.utf8ByteSize then .error .nameTooLong
      else if (entries.lookup step).isSome then t.follow (place ++ [step]) steps
      else .error .notFound

mutual

/-- All files of a tree, with the names on the way to them. -/
def files : FileTree → List (List String × ByteArray)
  | file content => [([], content)]
  | directory entries => filesIn entries

/-- All files in some entries. -/
def filesIn : List (String × FileTree) → List (List String × ByteArray)
  | [] => []
  | (name, t) :: es => t.files.map (fun f => (name :: f.1, f.2)) ++ filesIn es

end

end FileTree

/-- A tree of files, and the place that relative paths start at. -/
structure Workspace where
  tree : FileTree
  home : List String
  deriving Inhabited

namespace Workspace

/-- Where a path starts. -/
def start (w : Workspace) (path : String) : List String :=
  if Path.isAbsolute path then [] else w.home

/-- Refuses texts that are no paths. -/
def checkPath (path : String) : Except Fault Unit :=
  if path.toList.contains '\x00' then .error .zeroInName
  else if FileTree.pathLimit < path.utf8ByteSize then .error .nameTooLong
  else .ok ()

/-- The tree that a path leads to. -/
def find (w : Workspace) (path : String) : Except Fault FileTree := do
  checkPath path
  let place ← w.tree.follow (w.start path) (Path.steps path)
  match w.tree.at? place with
  | none => .error .notFound
  | some t => .ok t

/-- The directory that a path names an entry of, and the name of the entry. -/
def locate (w : Workspace) (path : String) : Except Fault (List String × String) := do
  checkPath path
  match (Path.names path).getLast? with
  | none => .error .alreadyExists
  | some name => do
    let place ← w.tree.follow (w.start path) ((Path.names path).dropLast ++ ["."])
    if name == "." || name == ".." then .error .alreadyExists
    else if FileTree.nameLimit < name.utf8ByteSize then .error .nameTooLong
    else .ok (place, name)

/-- What an entry of a directory is. -/
def kindOf : FileTree → EntryKind
  | .file _ => .file
  | .directory _ => .directory

/-- Makes a directory. -/
def makeDirectory (w : Workspace) (path : String) : Except Fault Workspace := do
  let (place, name) ← w.locate path
  match w.tree.at? (place ++ [name]) with
  | some _ => .error .alreadyExists
  | none => .ok { w with tree := w.tree.put (.directory []) (place ++ [name]) }

/-- Writes a file. -/
def write (w : Workspace) (path text : String) : Except Fault Workspace := do
  let (place, name) ← w.locate path
  match w.tree.at? (place ++ [name]) with
  | some (.directory _) => .error .isDirectory
  | _ => .ok { w with tree := w.tree.put (.file text.toUTF8) (place ++ [name]) }

/-- Reads a file. -/
def read (w : Workspace) (path : String) : Except Fault String := do
  match ← w.find path with
  | .directory _ => .error .isDirectory
  | .file content =>
    match String.fromUTF8? content with
    | none => .error .notText
    | some text => .ok text

/-- Lists a directory. -/
def entries (w : Workspace) (path : String) : Except Fault (List (String × EntryKind)) := do
  match ← w.find path with
  | .file _ => .error .notDirectory
  | .directory es => .ok (es.map fun e => (e.1, kindOf e.2))

/-- Whether a path leads to something of a kind. -/
def isKind (w : Workspace) (kind : EntryKind) (path : String) : Bool :=
  match w.find path with
  | .ok t => kindOf t == kind
  | .error _ => false

/-- An operation that changes the workspace, or fails and leaves it. -/
def change (f : Workspace → Except Fault Workspace) : StateM Workspace (Except Fault Unit) :=
  fun w =>
    match f w with
    | .ok next => (.ok (), next)
    | .error fault => (.error fault, w)

/-- A way to walk over the directories of a workspace. -/
abbrev Walk : Type := Workspace → String → Except (String × Fault) (List (String × EntryKind))

/-- The workspace as a disk, with a way to walk over it. -/
def diskWith (walk : Walk) : Disk (StateM Workspace) where
  isFile path := fun w => (w.isKind .file path, w)
  isDirectory path := fun w => (w.isKind .directory path, w)
  walk path := fun w => (walk w path, w)
  read path := fun w => (w.read path, w)
  makeDirectory path := change (·.makeDirectory path)
  write path text := change (·.write path text)

/-- Walks over a workspace directory by directory. -/
def walkListed : Walk := fun w path =>
  Id.run (walkBy (fun place => pure (w.entries place)) FileTree.pathLimit path)

/-- The workspace as a disk. -/
abbrev disk : Disk (StateM Workspace) := diskWith walkListed

end Workspace

end GatewayPolicy
