/-! # Element trees

  A policy document is a tree of elements. An element has a name, attributes
  in order and children in order; a child is another element, a text, or
  markup that is copied as it stands.

  `Node` is the recursive type. `Element` is the same data as a `Node.element`,
  laid out as a record, for building one element step by step.
-/

namespace GatewayPolicy

/-- A named value of an element. -/
structure Attribute where
  name : String
  value : String
  deriving DecidableEq, Repr, Inhabited

/-- A child of an element. -/
inductive Node where
  | element (name : String) (attributes : List Attribute) (children : List Node)
  /-- Text, escaped when written unless it is inline code. -/
  | text (text : String)
  /-- Markup written as it stands. -/
  | raw (markup : String)
  deriving Inhabited

/-- An element as a record. -/
structure Element where
  name : String
  attributes : List Attribute := []
  children : List Node := []
  deriving Inhabited

/-- An element as a child of another. -/
def Element.toNode (e : Element) : Node := .element e.name e.attributes e.children

/-- The element that a child is, if it is one. -/
def Node.toElement? : Node → Option Element
  | .element name attributes children => some { name, attributes, children }
  | .text _ => none
  | .raw _ => none

/-- Whether a child is an element. -/
def Node.isElement : Node → Bool
  | .element .. => true
  | .text _ => false
  | .raw _ => false

/-- The characters that a child adds to the text of its parent. -/
def Node.content : Node → String
  | .element .. => ""
  | .text s => s
  | .raw s => s

namespace Element

/-! ## Building -/

/-- Adds an attribute after the others. -/
def addAttribute (e : Element) (name value : String) : Element :=
  { e with attributes := e.attributes ++ [{ name, value }] }

/-- Adds children after the others. -/
def append (e : Element) (nodes : List Node) : Element :=
  { e with children := e.children ++ nodes }

/-- Adds a child element after the other children. -/
def addElement (e child : Element) : Element := e.append [child.toNode]

/-- Adds a text after the other children. -/
def addText (e : Element) (text : String) : Element := e.append [.text text]

/-- Adds markup after the other children. -/
def addRaw (e : Element) (markup : String) : Element := e.append [.raw markup]

/-! ## Looking -/

/-- The value of the first attribute of a name. -/
def attribute? (e : Element) (name : String) : Option String :=
  (e.attributes.find? (·.name == name)).map (·.value)

/-- The child elements in order. -/
def elements (e : Element) : List Element := e.children.filterMap Node.toElement?

/-- The first child element of a name. -/
def element? (e : Element) (name : String) : Option Element :=
  e.elements.find? (·.name == name)

/-- The texts and markup directly inside the element, joined. -/
def text (e : Element) : String := String.join (e.children.map Node.content)

/-- An element is empty when it has neither attributes nor children. -/
def isEmpty (e : Element) : Bool := e.attributes.isEmpty && e.children.isEmpty

/-! ## What building changes -/

@[simp] theorem append_name (e : Element) (ns : List Node) : (e.append ns).name = e.name := rfl

@[simp] theorem append_attributes (e : Element) (ns : List Node) :
    (e.append ns).attributes = e.attributes := rfl

@[simp] theorem append_children (e : Element) (ns : List Node) :
    (e.append ns).children = e.children ++ ns := rfl

@[simp] theorem append_nil (e : Element) : e.append [] = e := by simp [append]

theorem append_append (e : Element) (ms ns : List Node) :
    (e.append ms).append ns = e.append (ms ++ ns) := by simp [append]

@[simp] theorem toElement?_toNode (e : Element) : e.toNode.toElement? = some e := rfl

end Element

end GatewayPolicy
