import GatewayPolicy.Source.Span

/-! # Source files

  A source file is a name and a text held in memory. Spans refer to its text
  by byte offsets, so taking the text of a span walks the characters and
  counts the bytes of each.

  - `dropBytes` and `takeBytes` succeed only on character boundaries.
  - `SourceFile.slice` gives the empty text for a span that does not lie on
    the file.
-/

namespace GatewayPolicy

/-- A text to compile, with the name that reports use for it. -/
structure SourceFile where
  name : String
  /-- Where the text was read from, if it was read from a file. -/
  path : Option String := none
  text : String
  deriving DecidableEq, Repr, Inhabited

/-! ## Byte offsets into characters -/

/-- The characters after the first `n` bytes, if a character ends there. -/
def dropBytes : Nat → List Char → Option (List Char)
  | 0, cs => some cs
  | _ + 1, [] => none
  | n + 1, c :: cs =>
    if c.utf8Size ≤ n + 1 then dropBytes (n + 1 - c.utf8Size) cs else none

/-- The characters that make up the first `n` bytes, if a character ends there. -/
def takeBytes : Nat → List Char → Option (List Char)
  | 0, _ => some []
  | _ + 1, [] => none
  | n + 1, c :: cs =>
    if c.utf8Size ≤ n + 1 then (takeBytes (n + 1 - c.utf8Size) cs).map (c :: ·) else none

namespace SourceFile

/-- A file named by the path it was read from. -/
def ofPath (path text : String) : SourceFile :=
  { name := path, path := some path, text }

/-- The text that a span covers; empty when the span is reversed, reaches
    beyond the text or cuts a character. -/
def slice (file : SourceFile) (span : Span) : String :=
  if span.start ≤ span.stop then
    match dropBytes span.start file.text.toList with
    | none => ""
    | some rest =>
      match takeBytes span.length rest with
      | none => ""
      | some cs => String.ofList cs
  else ""

/-- Where a span starts, as a report names it. -/
def location (file : SourceFile) (span : Span) : Location :=
  { file := file.name, line := span.line, column := span.column }

end SourceFile

end GatewayPolicy
