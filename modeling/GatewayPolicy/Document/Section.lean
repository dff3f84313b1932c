/-! # Sections

  A document has up to four sections, one for each phase of a request; a
  fragment has one. A section is written as a method with the section's name.
-/

namespace GatewayPolicy

/-- What a class is compiled to. -/
inductive DocumentKind where
  | document
  | fragment
  deriving DecidableEq, Repr, Inhabited

namespace DocumentKind

/-- All kinds. -/
def all : List DocumentKind := [document, fragment]

/-- The word for a kind; classes are marked by it. -/
def word : DocumentKind → String
  | document => "Document"
  | fragment => "Fragment"

/-- The kind of a word. -/
def ofWord? (word : String) : Option DocumentKind := all.find? (·.word == word)

/-- The outermost element. -/
def rootElement : DocumentKind → String
  | document => "policies"
  | fragment => "fragment"

end DocumentKind

/-- A section. -/
inductive PolicySection where
  | inbound
  | backend
  | outbound
  | onError
  | fragment
  deriving DecidableEq, Repr, Inhabited

namespace PolicySection

/-- All sections. -/
def all : List PolicySection := [inbound, backend, outbound, onError, fragment]

/-- The name of the method that a section is written as. -/
def method : PolicySection → String
  | inbound => "Inbound"
  | backend => "Backend"
  | outbound => "Outbound"
  | onError => "OnError"
  | fragment => "Fragment"

/-- The element that a section becomes. -/
def element : PolicySection → String
  | inbound => "inbound"
  | backend => "backend"
  | outbound => "outbound"
  | onError => "on-error"
  | fragment => "fragment"

/-- The kind of class that a section belongs to. -/
def kind : PolicySection → DocumentKind
  | fragment => .fragment
  | inbound | backend | outbound | onError => .document

/-- The section that a method of a class stands for. -/
def ofMethod? (kind : DocumentKind) (method : String) : Option PolicySection :=
  all.find? fun s => s.method == method && s.kind == kind

end PolicySection

end GatewayPolicy
