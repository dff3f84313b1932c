import GatewayPolicy.Markup.Writer

/-! # Layouts differ in white space only

  A document is written tag by tag. The indented form puts some tags and some pieces
  of markup on lines of their own, and this must not reach into a text: white space in
  front of a text would be part of it.

  - `Node.Unmixed` says that texts stand alone: an element that holds a text holds
    nothing else.
  - `Node.segments` lists what is written of a node piece by piece, and `Segment.gap`
    says which pieces start a line.
  - `Node.chars_segments` writes the pieces one after the other; `Node.chars_indented`
    writes the same pieces with the gaps in front of them.
-/

namespace GatewayPolicy

/-! ## Elements of a tree -/

mutual

/-- The elements of a node in the order of the document: itself, and all inside it. -/
def Node.nested : Node → List Element
  | .element name attributes children =>
    { name, attributes, children } :: Node.nestedOfAll children
  | .text _ | .raw _ => []

/-- The elements of some nodes. -/
def Node.nestedOfAll : List Node → List Element
  | [] => []
  | node :: nodes => node.nested ++ Node.nestedOfAll nodes

end

theorem Node.mem_nestedOfAll {ns : List Node} {e : Element} :
    e ∈ Node.nestedOfAll ns ↔ ∃ n ∈ ns, e ∈ n.nested := by
  induction ns with
  | nil => simp [Node.nestedOfAll]
  | cons n ns ih => simp [Node.nestedOfAll, ih]

/-! ## Texts that stand alone -/

/-- Whether a child is a text. -/
def Node.isText : Node → Bool
  | .text _ => true
  | .element .. => false
  | .raw _ => false

/-- Whether an element does not hold a text beside other children. -/
def Element.isUnmixed (e : Element) : Bool :=
  !(e.children.any Node.isText && e.children.any (!·.isText))

/-- Markup, or an element in which texts are never beside other children. -/
inductive Node.Unmixed : Node → Prop where
  | raw (markup : String) : Unmixed (.raw markup)
  | texts (name : String) (attributes : List Attribute) {children : List Node}
      (h : ∀ n ∈ children, n.isText = true) : Unmixed (.element name attributes children)
  | nodes (name : String) (attributes : List Attribute) {children : List Node}
      (h : ∀ n ∈ children, Unmixed n) : Unmixed (.element name attributes children)

namespace Node

/-- A node that stands beside others is no text. -/
theorem Unmixed.isText_eq {n : Node} (h : n.Unmixed) : n.isText = false := by
  cases h <;> rfl

theorem isElement_of_isText {n : Node} (h : n.isText = true) : n.isElement = false := by
  cases n with
  | text s => rfl
  | element name attributes children => cases h
  | raw markup => cases h

/-- A text has no elements in it. -/
theorem nested_of_isText {n : Node} (h : n.isText = true) : n.nested = [] := by
  cases n with
  | text s => rfl
  | element name attributes children => cases h
  | raw markup => cases h

theorem isUnmixed_of_texts {e : Element} (h : ∀ n ∈ e.children, n.isText = true) :
    e.isUnmixed = true := by
  have hothers : e.children.any (!·.isText) = false := by
    rw [List.any_eq_false]
    intro n hn
    simp [h n hn]
  rw [Element.isUnmixed, hothers, Bool.and_false]
  rfl

theorem isUnmixed_of_no_text {e : Element} (h : ∀ n ∈ e.children, n.isText = false) :
    e.isUnmixed = true := by
  have htexts : e.children.any Node.isText = false := by
    rw [List.any_eq_false]
    intro n hn
    simp [h n hn]
  rw [Element.isUnmixed, htexts, Bool.false_and]
  rfl

/-- Everywhere in the tree, an element that holds a text holds nothing else. -/
theorem Unmixed.nested {n : Node} (h : n.Unmixed) : ∀ e ∈ n.nested, e.isUnmixed = true := by
  induction h with
  | raw markup => exact List.forall_mem_nil _
  | texts name attributes h =>
    rw [Node.nested, List.forall_mem_cons]
    refine ⟨isUnmixed_of_texts h, ?_⟩
    intro e he
    obtain ⟨n, hn, he⟩ := mem_nestedOfAll.mp he
    rw [nested_of_isText (h n hn)] at he
    cases he
  | nodes name attributes h ih =>
    rw [Node.nested, List.forall_mem_cons]
    refine ⟨isUnmixed_of_no_text fun n hn => (h n hn).isText_eq, ?_⟩
    intro e he
    obtain ⟨n, hn, he⟩ := mem_nestedOfAll.mp he
    exact ih n hn e he

end Node

/-! ## Segments -/

/-- A piece of a written document. -/
inductive Segment where
  /-- The start tag of an element, or its only tag when it has no children. -/
  | start (name : String) (attributes : List Attribute) (isLone : Bool) (depth : Nat)
  | text (value : String)
  /-- Markup, and whether an element stands beside it. -/
  | raw (markup : String) (besideElement : Bool) (depth : Nat)
  /-- The end tag of an element, and whether there is an element among its children. -/
  | stop (name : String) (aroundElement : Bool) (depth : Nat)
  deriving DecidableEq, Repr

namespace Segment

/-- A segment as written. -/
def chars : Segment → List Char
  | start name attributes isLone _ =>
    tagChars name attributes ++ if isLone then " />".toList else ['>']
  | text value => valueChars escapeText value
  | raw markup _ _ => markup.toList
  | stop name _ _ => "</".toList ++ name.toList ++ ['>']

/-- What indentation puts in front of a segment. A line is started by the tag of every
    element but the outermost, by markup that has an element beside it, and by the end
    tag of an element with elements in it. A text never starts a line. -/
def gap (width : Nat) : Segment → List Char
  | start _ _ _ depth => if depth = 0 then [] else (Layout.indented width).newline depth
  | text _ => []
  | raw _ besideElement depth =>
    if besideElement then (Layout.indented width).newline depth else []
  | stop _ aroundElement depth =>
    if aroundElement then (Layout.indented width).newline depth else []

end Segment

mutual

/-- The segments of a node at a depth; `beside` tells whether there is an element among
    the children it belongs to. -/
def Node.segments (beside : Bool) (depth : Nat) : Node → List Segment
  | .text s => [.text s]
  | .raw s => [.raw s beside depth]
  | .element name attributes [] => [.start name attributes true depth]
  | .element name attributes (child :: children) =>
    let around := (child :: children).any Node.isElement
    .start name attributes false depth ::
      (child.segments around (depth + 1) ++ Node.allSegments around (depth + 1) children ++
        [.stop name around depth])

/-- The segments of the nodes of one element. -/
def Node.allSegments (beside : Bool) (depth : Nat) : List Node → List Segment
  | [] => []
  | node :: nodes => node.segments beside depth ++ Node.allSegments beside depth nodes

end

/-- The segments of a document. -/
def Element.segments (e : Element) : List Segment := e.toNode.segments false 0

/-! ## Compact documents -/

mutual

/-- A compact document is its segments, one after the other. -/
theorem Node.chars_segments (beside : Bool) (depth : Nat) (n : Node) :
    n.chars .compact depth = (n.segments beside depth).flatMap Segment.chars := by
  match n with
  | .text s => simp [Node.chars, Node.segments, Segment.chars]
  | .raw s => simp [Node.chars, Node.segments, Segment.chars]
  | .element name attributes [] => simp [Node.chars, Node.segments, Segment.chars]
  | .element name attributes (child :: children) =>
    have hchild := Node.chars_segments ((child :: children).any Node.isElement) (depth + 1) child
    have hchildren :=
      Node.allChars_segments ((child :: children).any Node.isElement) (depth + 1) children
    rw [Node.chars, Node.segments, hchild, hchildren]
    simp [Segment.chars, Layout.newline]

theorem Node.allChars_segments (beside : Bool) (depth : Nat) (ns : List Node) :
    Node.allChars .compact depth beside ns =
      (Node.allSegments beside depth ns).flatMap Segment.chars := by
  match ns with
  | [] => rfl
  | n :: ns =>
    have hn := Node.chars_segments beside depth n
    have hns := Node.allChars_segments beside depth ns
    rw [Node.allChars, Node.allSegments, hn, hns]
    simp [Layout.newline]

end

/-! ## Indented documents -/

/-- A segment with what indentation puts in front of it. -/
def Segment.line (width : Nat) (s : Segment) : List Char := s.gap width ++ s.chars

/-- What indentation puts in front of the first segment of a node. -/
def Node.gap (width : Nat) (beside : Bool) (depth : Nat) : Node → List Char
  | .element name attributes children =>
    (Segment.start name attributes children.isEmpty depth).gap width
  | .text s => (Segment.text s).gap width
  | .raw s => (Segment.raw s beside depth).gap width

/-- The children of an element all start a line, or none does. -/
theorem Node.gap_child {n : Node} (htext : n.isText = false) {beside : Bool}
    (hbeside : n.isElement = true → beside = true) (width depth : Nat) :
    n.gap width beside (depth + 1) =
      if beside then (Layout.indented width).newline (depth + 1) else [] := by
  cases n with
  | text s => cases htext
  | raw s => rfl
  | element name attributes children =>
    rw [hbeside rfl]
    rfl

/-- The nodes of one element, when each is written line by line. -/
theorem Node.allChars_indented {width depth : Nat} {beside : Bool} {ns : List Node}
    (h : ∀ n ∈ ns, (if beside then (Layout.indented width).newline depth else []) ++
      n.chars (.indented width) depth = (n.segments beside depth).flatMap (Segment.line width)) :
    Node.allChars (.indented width) depth beside ns =
      (Node.allSegments beside depth ns).flatMap (Segment.line width) := by
  induction ns with
  | nil => rfl
  | cons n ns ih =>
    obtain ⟨hn, hns⟩ := List.forall_mem_cons.mp h
    rw [Node.allChars, Node.allSegments, hn, ih hns, List.flatMap_append]

/-- An element whose children are written line by line. -/
theorem Node.chars_element_indented {width depth : Nat} {children : List Node}
    (h : ∀ n ∈ children,
      (if children.any Node.isElement then (Layout.indented width).newline (depth + 1) else []) ++
        n.chars (.indented width) (depth + 1) =
      (n.segments (children.any Node.isElement) (depth + 1)).flatMap (Segment.line width))
    (name : String) (attributes : List Attribute) (beside : Bool) :
    (Node.element name attributes children).gap width beside depth ++
        (Node.element name attributes children).chars (.indented width) depth =
      ((Node.element name attributes children).segments beside depth).flatMap
        (Segment.line width) := by
  cases children with
  | nil => simp [Node.gap, Node.chars, Node.segments, Segment.line, Segment.chars, Segment.gap]
  | cons child children =>
    obtain ⟨hchild, hchildren⟩ := List.forall_mem_cons.mp h
    rw [Node.chars, Node.segments, List.flatMap_cons, List.flatMap_append, List.flatMap_append,
      ← hchild, ← Node.allChars_indented hchildren]
    simp [Node.gap, Segment.line, Segment.chars, Segment.gap]

/-- An indented document is its segments with the gaps in front of them, if texts stand
    alone in it. -/
theorem Node.Unmixed.chars_indented {n : Node} (h : n.Unmixed) (width : Nat) (beside : Bool)
    (depth : Nat) :
    n.gap width beside depth ++ n.chars (.indented width) depth =
      (n.segments beside depth).flatMap (Segment.line width) := by
  induction h generalizing beside depth with
  | raw markup => simp [Node.gap, Node.chars, Node.segments, Segment.line, Segment.chars]
  | @texts name attributes children h =>
    apply Node.chars_element_indented
    have haround : children.any Node.isElement = false := by
      rw [List.any_eq_false]
      intro n hn
      simp [Node.isElement_of_isText (h n hn)]
    intro n hn
    rw [haround]
    cases n with
    | text s => simp [Node.chars, Node.segments, Segment.line, Segment.chars, Segment.gap]
    | element name attributes children => cases h _ hn
    | raw markup => cases h _ hn
  | @nodes name attributes children h ih =>
    apply Node.chars_element_indented
    intro n hn
    have hbeside : n.isElement = true → children.any Node.isElement = true := by
      intro helement
      exact List.any_eq_true.mpr ⟨n, hn, helement⟩
    rw [← Node.gap_child (h n hn).isText_eq hbeside]
    exact ih n hn _ _

/-! ## Texts -/

/-- A text is written alike in all layouts. -/
theorem Node.chars_of_isText {n : Node} (h : n.isText = true) (layout : Layout) (depth : Nat) :
    n.chars layout depth = n.chars .compact depth := by
  cases n with
  | text s => rw [Node.chars, Node.chars]
  | element name attributes children => cases h
  | raw markup => cases h

theorem Node.allChars_of_texts {ns : List Node} (h : ∀ n ∈ ns, n.isText = true)
    (layout : Layout) (depth : Nat) :
    Node.allChars layout depth false ns = Node.allChars .compact depth false ns := by
  induction ns with
  | nil => rfl
  | cons n ns ih =>
    obtain ⟨hn, hns⟩ := List.forall_mem_cons.mp h
    rw [Node.allChars, Node.allChars, ih hns, Node.chars_of_isText hn layout]
    rfl

/-- An element that holds a text is written alike in all layouts. -/
theorem Element.chars_of_text {e : Element} (h : e.isUnmixed = true)
    (htext : e.children.any Node.isText = true) (layout : Layout) (depth : Nat) :
    e.toNode.chars layout depth = e.toNode.chars .compact depth := by
  obtain ⟨name, attributes, children⟩ := e
  have htexts : ∀ n ∈ children, n.isText = true := by
    simpa [isUnmixed, htext] using h
  cases children with
  | nil => rfl
  | cons child children =>
    have haround : (child :: children).any Node.isElement = false := by
      rw [List.any_eq_false]
      intro n hn
      simp [Node.isElement_of_isText (htexts n hn)]
    obtain ⟨hchild, hchildren⟩ := List.forall_mem_cons.mp htexts
    simp only [Element.toNode, Node.chars, haround]
    rw [Node.chars_of_isText hchild layout, Node.allChars_of_texts hchildren layout]
    rfl

end GatewayPolicy
