import GatewayPolicy.Command.Arguments
import GatewayPolicy.Command.FileTree
import GatewayPolicy.Command.Report

/-! # Running the command

  `compile` finds the source files, loads all of them, compiles them, and only
  then writes: a source that cannot be loaded or parsed leaves the disk as it
  was. A report follows when all documents are written.

  - `Failure` is why a run ends early.
  - `run` runs a command line on a disk.
-/

namespace GatewayPolicy

/-! ## Outcomes -/

/-- Why a run fails. -/
inductive Failure where
  | missingSource (path : String)
  | listing (path : String) (fault : Fault)
  | load (path : String) (fault : Fault)
  | parse (error : ParseError)
  | outputDirectory (path : String) (fault : Fault)
  | write (path : String) (fault : Fault)
  | diagnostics (count : Nat)
  deriving Inhabited

namespace Failure

/-- The failure in words. -/
def message : Failure → String
  | missingSource path => s!"Path does not exist: {path}"
  | listing path fault => s!"IO error for operation on {path}: {fault.text}"
  | load path fault => s!"Failed to load source from {path}: {fault.text}"
  | parse error => error.text
  | outputDirectory path _ => s!"Failed to create output directory {path}"
  | write path fault => s!"Failed to write document to {path}: {fault.text}"
  | diagnostics count => s!"Compilation reported {count} diagnostic(s)"

/-- The fault under a failure. -/
def cause? : Failure → Option Fault
  | listing _ fault | load _ fault | outputDirectory _ fault | write _ fault => some fault
  | missingSource _ | parse _ | diagnostics _ => none

/-- What is printed about a failure. -/
def text (f : Failure) : String :=
  match f.cause? with
  | none => s!"Error: {f.message}\n"
  | some fault => s!"Error: {f.message}\n\nCaused by:\n    {fault.text}\n"

end Failure

/-- How a run ends. -/
inductive Outcome where
  /-- The command line was refused. -/
  | refused
  /-- The command ran; what it printed, and the failure that ended it. -/
  | finished (printed : String) (failure : Option Failure)
  deriving Inhabited

namespace Outcome

/-- The number that a run ends with. -/
def exitCode : Outcome → Nat
  | refused => 2
  | finished _ (some _) => 1
  | finished _ none => 0

/-- What is printed about the failure. -/
def errorText : Outcome → String
  | finished _ (some f) => f.text
  | finished _ none => ""
  | refused => ""

end Outcome

/-! ## Compiling -/

/-- The extension of source files. -/
def sourceExtension : String := "cs"

/-- Whether something that was found in a directory is a source. -/
def isSource (found : String × EntryKind) : Bool :=
  found.2 == .file && (Path.fileName? found.1).bind Path.extension? == some sourceExtension

/-- The options of a command. -/
def CompileCommand.options (c : CompileCommand) : Options :=
  { format := c.format, indent := c.indent, failing := !c.noFail }

/-- The path that a document is written to. -/
def CompileCommand.pathOf (c : CompileCommand) (d : CompiledDocument) : String :=
  Path.join c.output (d.marker.name ++ ".xml")

/-- The report of a command. -/
def CompileCommand.report (c : CompileCommand) (ws : List WrittenDocument) : String :=
  if c.json then jsonReport ws else textReport ws

variable {m : Type → Type} [Monad m]

/-- The source files of a command: the file that is named, or those in the
    directory that is named. -/
def findSources (d : Disk m) (path : String) : ExceptT Failure m (List String) := do
  if ← (d.isFile path : m Bool) then return [path]
  else if ← (d.isDirectory path : m Bool) then
    match ← (d.walk path : m (Except (String × Fault) (List (String × EntryKind)))) with
    | .ok found => return (found.filter isSource).map (·.1)
    | .error (place, fault) => throw (.listing place fault)
  else throw (.missingSource path)

/-- Loads a source file. -/
def loadSource (d : Disk m) (path : String) : ExceptT Failure m SourceFile := do
  match ← (d.read path : m (Except Fault String)) with
  | .ok text => return .ofPath path text
  | .error fault => throw (.load path fault)

/-- Makes the directory that documents are written to. -/
def makeOutput (d : Disk m) (path : String) : ExceptT Failure m Unit := do
  match ← (d.makeDirectories path : m (Except Fault Unit)) with
  | .ok () => return ()
  | .error fault => throw (.outputDirectory path fault)

/-- Writes a document. -/
def writeDocument (d : Disk m) (c : CompileCommand) (doc : CompiledDocument) :
    ExceptT Failure m WrittenDocument := do
  let path := c.pathOf doc
  match ← (d.write path (c.options.write doc) : m (Except Fault Unit)) with
  | .ok () => return { document := doc, path }
  | .error fault => throw (.write path fault)

/-- Compiles sources and writes their documents. -/
def compileSources (d : Disk m) (c : CompileCommand) (paths : List String) :
    ExceptT Failure m (List WrittenDocument) := do
  let files ← paths.mapM (loadSource d)
  match GatewayPolicy.compile files with
  | .error e => throw (.parse e)
  | .ok documents => do
    makeOutput d c.output
    documents.mapM (writeDocument d c)

/-- How a compilation ends whose documents are written. -/
def CompileCommand.conclude (c : CompileCommand) (ws : List WrittenDocument) : Outcome :=
  let documents := ws.map (·.document)
  let count := (documents.flatMap (·.diagnostics)).length
  .finished (c.report ws)
    (if c.options.hasFailed documents then some (.diagnostics count) else none)

/-- How a compilation ends. -/
def CompileCommand.outcome (c : CompileCommand) : Except Failure (List WrittenDocument) → Outcome
  | .error f => .finished "" (some f)
  | .ok ws => c.conclude ws

/-- Runs a `compile` command. -/
def runCompile (d : Disk m) (c : CompileCommand) : m Outcome := do
  match ← (findSources d c.source).run with
  | .error f => return .finished "" (some f)
  | .ok [] => return .finished s!"No policy sources found in {c.source}\n" none
  | .ok paths => return c.outcome (← (compileSources d c paths).run)

/-- What `version` prints. -/
def versionText : String := "tollgate 0.1.0\n"

/-- Runs a command line. -/
def run (d : Disk m) (outputVariable : Option String) (arguments : List String) : m Outcome :=
  match Invocation.parse? outputVariable arguments with
  | none => return .refused
  | some .version => return .finished versionText none
  | some (.compile c) => runCompile d c

end GatewayPolicy
