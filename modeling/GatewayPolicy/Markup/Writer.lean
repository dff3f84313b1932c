import GatewayPolicy.Markup.Element
import GatewayPolicy.Markup.Inline

/-! # Writing elements as XML

  An element tree is written either compactly or with every element on a line
  of its own. Plain values are escaped. Inline code is written as it stands,
  without its marker.

  - `Layout` says which of the two forms is written, and how wide a step of
    indentation is.
  - `Node.chars` writes a node; `Element.toXml` writes a whole document.
-/

namespace GatewayPolicy

/-- How a document is laid out. -/
inductive Layout where
  /-- No white space between tags. -/
  | compact
  /-- A new line before each element, indented by `width` for each level. -/
  | indented (width : Nat)
  deriving DecidableEq, Repr, Inhabited

/-- What separates the children of an element at a depth. -/
def Layout.newline : Layout → Nat → List Char
  | .compact, _ => []
  | .indented width, depth => '\n' :: List.replicate (depth * width) ' '

/-! ## Values -/

/-- A character of a text. -/
def escapeText (c : Char) : List Char :=
  if c = '&' then "&amp;".toList
  else if c = '<' then "&lt;".toList
  else if c = '>' then "&gt;".toList
  else [c]

/-- A character of an attribute value; quotes are escaped as well. -/
def escapeAttribute (c : Char) : List Char :=
  if c = '"' then "&quot;".toList
  else if c = '\'' then "&apos;".toList
  else escapeText c

/-- A value as written: inline code as it stands, anything else escaped. -/
def valueChars (escape : Char → List Char) (value : String) : List Char :=
  match stripMarker value with
  | some code => code.toList
  | none => value.toList.flatMap escape

/-- What is no inline code is escaped. -/
theorem valueChars_of_plain {v : String} (h : isInline v = false) (escape : Char → List Char) :
    valueChars escape v = v.toList.flatMap escape := by
  unfold isInline at h
  unfold valueChars
  cases hstrip : stripMarker v with
  | none => rfl
  | some code =>
    rw [hstrip] at h
    cases h

/-- An attribute as written, with the blank before it. -/
def Attribute.chars (a : Attribute) : List Char :=
  ' ' :: a.name.toList ++ '=' :: '"' :: valueChars escapeAttribute a.value ++ ['"']

/-- A start tag up to, but not including, its closing bracket. -/
def tagChars (name : String) (attributes : List Attribute) : List Char :=
  '<' :: name.toList ++ attributes.flatMap Attribute.chars

/-! ## Nodes -/

mutual

/-- A node at a depth. The children of an element stand on lines of their own
    when one of them is an element. -/
def Node.chars (layout : Layout) (depth : Nat) : Node → List Char
  | .text s => valueChars escapeText s
  | .raw s => s.toList
  | .element name attributes [] => tagChars name attributes ++ " />".toList
  | .element name attributes (child :: children) =>
    let spread := (child :: children).any Node.isElement
    tagChars name attributes ++ ['>']
      ++ (if spread then layout.newline (depth + 1) else [])
      ++ child.chars layout (depth + 1)
      ++ Node.allChars layout (depth + 1) spread children
      ++ (if spread then layout.newline depth else [])
      ++ "</".toList ++ name.toList ++ ['>']

/-- The nodes of one element, each on a line of its own when `spread`. -/
def Node.allChars (layout : Layout) (depth : Nat) (spread : Bool) : List Node → List Char
  | [] => []
  | node :: nodes =>
    (if spread then layout.newline depth else []) ++ node.chars layout depth
      ++ Node.allChars layout depth spread nodes

end

/-- A document as XML text. -/
def Element.toXml (layout : Layout) (root : Element) : String :=
  String.ofList (root.toNode.chars layout 0)

end GatewayPolicy
