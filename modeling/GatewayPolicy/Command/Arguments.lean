/-! # Arguments

  The command line: `version`, or `compile` with a source, options that take a
  value, and flags. Every option may be given once. What cannot be read is
  refused as a whole.

  - `Word.ofText` says what one argument is.
  - `Invocation.parse?` reads a command line.
-/

namespace GatewayPolicy

/-- Options without a value. -/
inductive Flag where
  | format
  | json
  | noFail
  deriving DecidableEq, Repr, Inhabited

/-- Options with a value. -/
inductive ValueOption where
  | output
  | indent
  deriving DecidableEq, Repr, Inhabited

/-- What one argument is. -/
inductive Word where
  | flag (f : Flag)
  /-- An option with a value, which may be attached to it. -/
  | option (o : ValueOption) (attached : Option String)
  | plain (text : String)
  | unknown
  deriving DecidableEq, Repr, Inhabited

/-- What a long option is, from the characters after its dashes. -/
def longWord (cs : List Char) : Word :=
  let name := String.ofList (cs.takeWhile (· != '='))
  let attached := match cs.dropWhile (· != '=') with
    | [] => none
    | _ :: value => some (String.ofList value)
  match name, attached with
  | "output", _ => .option .output attached
  | "indent", _ => .option .indent attached
  | "format", none => .flag .format
  | "json", none => .flag .json
  | "no-fail", none => .flag .noFail
  | _, _ => .unknown

/-- What a short option is, from the characters after its dash. -/
def shortWord : List Char → Word
  | ['o'] => .option .output none
  | 'o' :: '=' :: value => .option .output (some (String.ofList value))
  | 'o' :: value => .option .output (some (String.ofList value))
  | _ => .unknown

/-- What an argument is. A single dash is no option. -/
def Word.ofText (text : String) : Word :=
  match text.toList with
  | '-' :: '-' :: cs => longWord cs
  | ['-'] => .plain text
  | '-' :: cs => shortWord cs
  | _ => .plain text

/-- What has been read of a `compile` command. -/
structure Given where
  source : Option String := none
  output : Option String := none
  indent : Option Nat := none
  flags : List Flag := []
  deriving DecidableEq, Repr, Inhabited

/-- The largest number that fits 64 bits. -/
def largestWord : Nat := 18446744073709551615

/-- The number that decimal digits write, if it fits 64 bits. -/
def wordNumber? (cs : List Char) : Option Nat :=
  if !cs.isEmpty && cs.all Char.isDigit then
    let n := cs.foldl (fun n c => n * 10 + (c.toNat - '0'.toNat)) 0
    if n ≤ largestWord then some n else none
  else none

/-- A number as it is written on the command line, with an optional plus. -/
def indentWidth? (text : String) : Option Nat :=
  match text.toList with
  | '+' :: cs => wordNumber? cs
  | cs => wordNumber? cs

/-- A path; the empty text is none. -/
def pathText? (text : String) : Option String := if text.isEmpty then none else some text

namespace Given

/-- Adds a flag, unless it was given before. -/
def addFlag (g : Given) (f : Flag) : Option Given :=
  if g.flags.contains f then none else some { g with flags := f :: g.flags }

/-- Adds an option, unless it was given before or its value is no value. -/
def addOption (g : Given) (o : ValueOption) (value : String) : Option Given :=
  match o with
  | .output =>
    if g.output.isSome then none
    else (pathText? value).map fun path => { g with output := some path }
  | .indent =>
    if g.indent.isSome then none
    else (indentWidth? value).map fun n => { g with indent := some n }

/-- Adds the source, unless it was given before. -/
def addSource (g : Given) (path : String) : Option Given :=
  if g.source.isSome then none
  else (pathText? path).map fun path => { g with source := some path }

/-- Reads arguments that are no options, whatever they look like. -/
def readPlain (g : Given) : List String → Option Given
  | [] => some g
  | a :: as => (g.addSource a).bind (·.readPlain as)

/-- Reads arguments from left to right. After a double dash no options follow. -/
def read (g : Given) : List String → Option Given
  | [] => some g
  | "--" :: as => g.readPlain as
  | a :: as =>
    match Word.ofText a with
    | .unknown => none
    | .flag f => (g.addFlag f).bind (·.read as)
    | .option o (some value) => (g.addOption o value).bind (·.read as)
    | .option o none =>
      match as with
      | [] => none
      | value :: rest =>
        match Word.ofText value with
        | .plain text => (g.addOption o text).bind (·.read rest)
        | _ => none
    | .plain text => (g.addSource text).bind (·.read as)

end Given

/-- A `compile` command. -/
structure CompileCommand where
  source : String
  output : String
  format : Bool
  indent : Nat
  json : Bool
  noFail : Bool
  deriving DecidableEq, Repr, Inhabited

/-- A command. -/
inductive Invocation where
  | version
  | compile (command : CompileCommand)
  deriving DecidableEq, Repr, Inhabited

/-- The command that was read, completed by defaults. The place for the
    documents may also be given by the environment. -/
def Given.command? (g : Given) (outputVariable : Option String) : Option CompileCommand := do
  let output ← match g.output, outputVariable with
    | some path, _ => some path
    | none, some path => pathText? path
    | none, none => some "out"
  return {
    source := g.source.getD "policies"
    output
    format := g.flags.contains .format
    indent := g.indent.getD 4
    json := g.flags.contains .json
    noFail := g.flags.contains .noFail }

/-- Reads a command line; nothing when it is refused. -/
def Invocation.parse? (outputVariable : Option String) : List String → Option Invocation
  | "compile" :: as => do
    let given ← ({} : Given).read as
    return .compile (← given.command? outputVariable)
  | ["version"] => some .version
  | ["version", "--"] => some .version
  | "--version" :: _ => some .version
  | a :: _ =>
    match a.toList with
    | '-' :: 'V' :: _ => some .version
    | _ => none
  | [] => none

end GatewayPolicy
