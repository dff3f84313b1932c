import GatewayPolicy.Document.Section
import GatewayPolicy.Policy.Site
import GatewayPolicy.Text.LowerCase

/-! # Markers

  A class is compiled when it carries an attribute `Document` or `Fragment`. The
  attribute may give the document a name and a scope; the document is called
  like the class otherwise.

  - `Part.marker` reads the marker of a part.
  - `isFileName` says which names are accepted: the document is written to a
    file of that name, which must not lie in another directory.
-/

namespace GatewayPolicy

/-- What a class is compiled to, and the name and scope of the result. -/
structure Marker where
  name : String
  scope : String
  kind : DocumentKind
  deriving DecidableEq, Repr, Inhabited

/-- The scope of documents that give none. -/
def anyScope : String := "any"

/-- Whether a name can be the name of a file in a directory. -/
def isFileName (name : String) : Bool :=
  let cs := name.toList
  !(cs.contains '/' || cs.contains '\\') && !(!cs.isEmpty && cs.all (· == '.'))

/-- The first attribute that marks a class, and the kind it marks it with. -/
def ClassDecl.mark? (c : ClassDecl) : Option (AttributeUse × DocumentKind) :=
  c.attributes.findSome? fun a => (DocumentKind.ofWord? a.simpleName).map (a, ·)

namespace Part

/-- Reports a problem in the file of a part. -/
def report (p : Part) (problem : Problem) (span : Span) : Reported Unit :=
  Reported.report (problem.locatedAt (p.file.location span))

/-- The text of a marker's argument. -/
def markerText (p : Part) (m : Model) (e : Expr) : Reported (Option String) :=
  match m.evaluate p.decl.name e with
  | .ok text => return some text
  | .error error => do
    p.report (.documentNameNotConstant error) e.span
    return none

/-- The name that an argument gives to the document. -/
def markerName (p : Part) (m : Model) (e : Expr) : Reported (Option String) := do
  match ← p.markerText m e with
  | none => return none
  | some name =>
    if isFileName name then return some name
    else do
      p.report (.documentNameNotPlain name) e.span
      return none

/-- The scope that an argument gives to the document, in lower case. A member
    that is no constant gives its own name. -/
def markerScope (p : Part) (m : Model) (e : Expr) : Reported (Option String) :=
  let written := do
    let text ← p.markerText m e
    return text.map Text.lowerCase
  match e, m.evaluate p.decl.name e with
  | .member _ name _ _, .error _ => return some (Text.lowerCase name)
  | _, _ => written

/-- The name and scope that the arguments give. Of two that give the same, the
    later counts. -/
def markerArguments (p : Part) (m : Model) (name scope : Option String) :
    List Argument → Reported (Option String × Option String)
  | [] => return (name, scope)
  | a :: as => do
    match a.name with
    | none | some "Name" => do
      let name ← p.markerName m a.value
      markerArguments p m name scope as
    | some "Scope" => do
      let scope ← p.markerScope m a.value
      markerArguments p m name scope as
    | some _ => markerArguments p m name scope as

/-- The marker of a part, if it has one. -/
def marker (p : Part) (m : Model) : Reported (Option Marker) :=
  match p.decl.mark? with
  | none => return none
  | some (a, kind) => do
    let (name, scope) ← p.markerArguments m none none a.arguments
    let given := name.filter (!·.isEmpty)
    return some { name := given.getD p.decl.name, scope := scope.getD anyScope, kind }

end Part

end GatewayPolicy
