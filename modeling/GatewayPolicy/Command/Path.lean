/-! # Paths

  Paths are texts, as they are given on the command line and as they are shown
  in messages. The steps of a path are the names between its slashes.

  - `Path.steps` lists the steps, `Path.join` adds one.
  - `Path.lineage` lists a path and the directories above it.
  - `Path.extension?` is the part of a name after its last dot.
-/

namespace GatewayPolicy

namespace Path

/-- Splits characters at slashes; empty parts are left out. -/
def splitSlashes : List Char → List Char → List (List Char)
  | part, [] => if part.isEmpty then [] else [part.reverse]
  | part, c :: cs =>
    if c = '/' then
      if part.isEmpty then splitSlashes [] cs else part.reverse :: splitSlashes [] cs
    else splitSlashes (c :: part) cs

/-- The names between the slashes of a path. -/
def names (path : String) : List String := (splitSlashes [] path.toList).map String.ofList

/-- Whether a path starts at the root. -/
def isAbsolute (path : String) : Bool := path.toList.head? == some '/'

/-- Whether a path ends with a slash. -/
def endsWithSlash (path : String) : Bool := path.toList.getLast? == some '/'

/-- The steps of a path. A slash at the end stands for a step to the same place,
    which only a directory allows. -/
def steps (path : String) : List String :=
  names path ++ if endsWithSlash path then ["."] else []

/-- A path followed by a name. The empty path adds nothing in front. -/
def join (path name : String) : String :=
  if path.isEmpty || endsWithSlash path then path ++ name else path ++ "/" ++ name

/-- The path of some names. -/
def ofNames (absolute : Bool) (names : List String) : String :=
  (if absolute then "/" else "") ++ "/".intercalate names

/-- The names of a path, without those that stay in place; one at the very start
    of a relative path is kept. -/
def essentialNames (path : String) : List String :=
  match names path with
  | [] => []
  | n :: ns =>
    let others := ns.filter (· != ".")
    if n == "." && isAbsolute path then others else n :: others

/-- The lists of names above a list of names, the longest first; the empty list
    is left out. -/
def above (names : List String) : List (List String) :=
  ((List.range names.length).reverse.filter (0 < ·)).map names.take

/-- A path and the directories above it, the nearest first. -/
def lineage (path : String) : List String :=
  path :: (above (essentialNames path)).map (ofNames (isAbsolute path))

/-- The last name of a path. -/
def fileName? (path : String) : Option String := (names path).getLast?

/-- The part of a name after the last dot. A name that starts with its only dot
    has none. -/
def extension? (name : String) : Option String :=
  let cs := name.toList.reverse
  match cs.dropWhile (· != '.') with
  | _ :: _ :: _ => some (String.ofList (cs.takeWhile (· != '.')).reverse)
  | _ => none

end Path

end GatewayPolicy
