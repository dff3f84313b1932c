import GatewayPolicy.Command.JsonValue
import GatewayPolicy.Document.Compile

/-! # Reports

  What is printed about the documents of a compilation, for readers or for
  other programs. Each document is named with the file it was written to.
-/

namespace GatewayPolicy

/-- A document and the path it was written to. -/
structure WrittenDocument where
  document : CompiledDocument
  path : String
  deriving Inhabited

namespace WrittenDocument

/-- The lines about a document: its diagnostics, then its file. -/
def lines (w : WrittenDocument) : List String :=
  let mark := if w.document.isClean then "✓" else "✗"
  w.document.diagnostics.map (·.text) ++ [s!"{mark} {w.document.marker.name} -> {w.path}"]

end WrittenDocument

/-- The report for readers. -/
def textReport (ws : List WrittenDocument) : String :=
  let lines := ws.flatMap (·.lines) ++ ["", s!"Compiled {ws.length} document(s)"]
  String.join (lines.map (· ++ "\n"))

/-- A location, for programs. -/
def Location.toJson (l : Location) : JsonValue :=
  .record [("column", .number l.column), ("file", .text l.file), ("line", .number l.line)]

/-- A diagnostic, for programs. -/
def Diagnostic.toJson (d : Diagnostic) : JsonValue :=
  .record [("code", .text d.code.word), ("location", d.location.toJson),
    ("message", .text d.message)]

/-- A document, for programs. -/
def WrittenDocument.toJson (w : WrittenDocument) : JsonValue :=
  .record [("diagnostics", .list (w.document.diagnostics.map (·.toJson))),
    ("kind", .text w.document.marker.kind.word), ("name", .text w.document.marker.name),
    ("output", .text w.path), ("scope", .text w.document.marker.scope),
    ("source", .text w.document.source)]

/-- The report for programs. -/
def jsonReport (ws : List WrittenDocument) : String :=
  (JsonValue.list (ws.map (·.toJson))).print 0 ++ "\n"

end GatewayPolicy
