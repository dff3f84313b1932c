import GatewayPolicy.Authoring.Unit
import GatewayPolicy.Document.Assembly
import GatewayPolicy.Markup.Writer

/-! # Compiling sources

  Every class with a marker on one of its parts becomes a document, in the order
  in which the classes are first declared. Documents have diagnostics of their
  own, so a problem in one does not touch the others.

  - `Model.documents` compiles all classes of a model.
  - `compile` parses and compiles source files; the first file that does not
    parse is the error.
-/

namespace GatewayPolicy

/-- A compiled class. -/
structure CompiledDocument where
  marker : Marker
  className : String
  /-- The file that the marker stands in. -/
  source : String
  root : Element
  diagnostics : List Diagnostic
  deriving Inhabited

/-- Whether nothing was reported. -/
def CompiledDocument.isClean (d : CompiledDocument) : Bool := d.diagnostics.isEmpty

/-- How documents are compiled and written. -/
structure Options where
  format : Bool := false
  indent : Nat := 4
  /-- Whether a diagnostic makes the compilation fail. -/
  failing : Bool := true
  deriving DecidableEq, Repr, Inhabited

namespace Options

/-- The layout that documents are written in. -/
def layout (o : Options) : Layout := if o.format then .indented o.indent else .compact

/-- The text of a document. -/
def write (o : Options) (d : CompiledDocument) : String := d.root.toXml o.layout

/-- Whether a compilation failed. -/
def hasFailed (o : Options) (ds : List CompiledDocument) : Bool :=
  o.failing && ds.any (!·.isClean)

end Options

namespace Model

/-- The names of all classes, each once, in the order of their first parts. -/
def classNames (m : Model) : List String := (m.parts.map (·.decl.name)).eraseDups

/-- The first part that carries a marker, and the marker. -/
def marked? (m : Model) (className : String) : Option (Part × Reported Marker) :=
  (m.partsOf className).findSome? fun p =>
    let r := p.marker m
    r.value.map fun marker => (p, { value := marker, diagnostics := r.diagnostics })

/-- The document of a class, if it carries a marker. -/
def document? (m : Model) (className : String) : Option CompiledDocument :=
  (m.marked? className).map fun (part, marker) =>
    let root := assemble m className marker.value
    { marker := marker.value, className, source := part.file.name, root := root.value,
      diagnostics := marker.diagnostics ++ root.diagnostics }

/-- All documents of a model. -/
def documents (m : Model) : List CompiledDocument := m.classNames.filterMap m.document?

end Model

/-- The trees of source files, or the error of the first that does not parse. -/
def parseAll (files : List SourceFile) : Except ParseError (List SourceTree) :=
  files.mapM SourceTree.parse

/-- The documents of source files. -/
def compile (files : List SourceFile) : Except ParseError (List CompiledDocument) := do
  let trees ← parseAll files
  return Model.documents { trees }

end GatewayPolicy
