import GatewayPolicy.Markup.Writer
import GatewayPolicy.Text.CharClass
import Mathlib.Data.List.Basic
import Mathlib.Data.Set.Function

/-! # Reading compact documents back

  In a compact document the character `<` stands at the beginning of a tag and
  nowhere else, `>` at the end of a tag, and `"` around the values of attributes.
  Wherever else these characters are meant, they are escaped. So a document is cut
  into its tags by `<`, a tag is cut from the text behind it by `>`, and the values
  are cut out of a tag by `"`.

  - `Node.isReadable` says which trees are read back: names are names, nothing is
    copied as it stands, and a text is the only child of its element.
  - `Node.tags` lists the tags of a tree, each with the text behind it.
  - `Element.ofXml?` reads a document. It keeps the elements that are open on a
    stack and adds each element to the one around it when it is closed.
  - `Element.ofXml?_of_isReadable` says that it gives back the tree that was written.
-/

namespace GatewayPolicy

/-! ## Trees that can be read back -/

/-- The characters of the names of elements and attributes. -/
def isNameChar (c : Char) : Bool := Text.isLetter c || Text.isNumeral c || c = '-' || c = '_'

/-- Whether a text is the name of an element or attribute. -/
def isMarkupName (name : String) : Bool := !name.toList.isEmpty && name.toList.all isNameChar

/-- Whether an attribute has a name and a value that is no inline code. -/
def Attribute.isReadable (a : Attribute) : Bool := isMarkupName a.name && !isInline a.value

/-- Whether a tag can have this name and these attributes. -/
def isReadableHead (name : String) (attributes : List Attribute) : Bool :=
  isMarkupName name && attributes.all Attribute.isReadable

mutual

/-- Whether a node is an element that can be read back. Its only child is a text
    that is no inline code, or its children are such elements. -/
def Node.isReadable : Node → Bool
  | .element name attributes [.text s] => isReadableHead name attributes && !isInline s
  | .element name attributes children =>
    isReadableHead name attributes && Node.allReadable children
  | .text _ | .raw _ => false

/-- Whether all nodes are elements that can be read back. -/
def Node.allReadable : List Node → Bool
  | [] => true
  | node :: nodes => node.isReadable && Node.allReadable nodes

end

/-- Whether a document can be read back. -/
def Element.isReadable (e : Element) : Bool := e.toNode.isReadable

/-! ## Tags -/

/-- A tag. -/
inductive Tag where
  | opening (name : String) (attributes : List Attribute)
  | closing (name : String)
  /-- The tag of an element without children. -/
  | lone (name : String) (attributes : List Attribute)
  deriving DecidableEq, Repr, Inhabited

/-- What stands between the brackets of a tag. -/
def Tag.inside : Tag → List Char
  | opening name attributes => name.toList ++ attributes.flatMap Attribute.chars
  | closing name => '/' :: name.toList
  | lone name attributes => name.toList ++ (attributes.flatMap Attribute.chars ++ [' ', '/'])

/-- A tag and the text behind it, as written behind the bracket `<`. -/
def stretchChars (x : Tag × String) : List Char :=
  x.1.inside ++ '>' :: x.2.toList.flatMap escapeText

mutual

/-- The tags of a node, each with the text behind it. -/
def Node.tags : Node → List (Tag × String)
  | .element name attributes [] => [(.lone name attributes, "")]
  | .element name attributes [.text s] => [(.opening name attributes, s), (.closing name, "")]
  | .element name attributes children =>
    (.opening name attributes, "") :: (Node.allTags children ++ [(.closing name, "")])
  | .text _ | .raw _ => []

/-- The tags of some nodes, in order. -/
def Node.allTags : List Node → List (Tag × String)
  | [] => []
  | node :: nodes => node.tags ++ Node.allTags nodes

end

/-! ## Reading -/

/-- A text with its entities replaced by the characters they stand for. -/
def unescape : List Char → List Char
  | '&' :: 'a' :: 'm' :: 'p' :: ';' :: cs => '&' :: unescape cs
  | '&' :: 'l' :: 't' :: ';' :: cs => '<' :: unescape cs
  | '&' :: 'g' :: 't' :: ';' :: cs => '>' :: unescape cs
  | '&' :: 'q' :: 'u' :: 'o' :: 't' :: ';' :: cs => '"' :: unescape cs
  | '&' :: 'a' :: 'p' :: 'o' :: 's' :: ';' :: cs => '\'' :: unescape cs
  | c :: cs => c :: unescape cs
  | [] => []

/-- The attributes of a tag that was cut at its quotes, and whether the tag is that
    of an element without children. Names and values take turns. -/
def readAttributes : List (List Char) → Option (List Attribute × Bool)
  | [[]] => some ([], false)
  | [[' ', '/']] => some ([], true)
  | lead :: value :: pieces => do
    let (attributes, isLone) ← readAttributes pieces
    let name := String.ofList lead.tail.dropLast
    return ({ name, value := String.ofList (unescape value) } :: attributes, isLone)
  | _ => none

/-- The tag that stands between two brackets. -/
def readTag (inside : List Char) : Option Tag :=
  if inside.head? = some '/' then some (.closing (String.ofList inside.tail))
  else do
    let name := String.ofList (inside.takeWhile isNameChar)
    let (attributes, isLone) ← readAttributes ((inside.dropWhile isNameChar).splitOn '"')
    return if isLone then .lone name attributes else .opening name attributes

/-- The tag that begins behind a bracket `<`, and the text behind the tag. -/
def readStretch (cs : List Char) : Option (Tag × String) :=
  match cs.splitOn '>' with
  | [inside, behind] => (readTag inside).map (·, String.ofList (unescape behind))
  | _ => none

/-- The elements that are open after one tag more, the innermost first. A text
    stands only behind an opening tag. An element that is closed with nothing in it
    holds the empty text, since one without children has a tag of its own. -/
def readStep : List Element → Tag × String → Option (List Element)
  | stack, (.opening name attributes, s) =>
    some ({ name, attributes, children := if s = "" then [] else [.text s] } :: stack)
  | outer :: stack, (.lone name attributes, s) =>
    if s = "" then some (outer.addElement { name, attributes } :: stack) else none
  | inner :: outer :: stack, (.closing name, s) =>
    if inner.name = name && s = "" then
      let closed := if inner.children.isEmpty then inner.addText "" else inner
      some (outer.addElement closed :: stack)
    else none
  | _, _ => none

/-- The document that a text spells. All tags are read inside an element without a
    name, whose only child is the document in the end. -/
def Element.ofXml? (text : String) : Option Element :=
  match text.toList.splitOn '<' with
  | [] :: stretches => do
    let tags ← stretches.mapM readStretch
    match ← tags.foldlM readStep [{ name := "" }] with
    | [outermost] =>
      match outermost.elements with
      | [root] => some root
      | _ => none
    | _ => none
  | _ => none

/-! ## Escaped texts -/

theorem unescape_cons {c : Char} (h : c ≠ '&') (cs : List Char) :
    unescape (c :: cs) = c :: unescape cs := by
  rw [unescape]
  all_goals simp [h]

theorem unescape_escapeText (c : Char) (cs : List Char) :
    unescape (escapeText c ++ cs) = c :: unescape cs := by
  unfold escapeText
  by_cases hand : c = '&'
  · simp [hand, unescape]
  by_cases hless : c = '<'
  · simp [hless, unescape]
  by_cases hgreater : c = '>'
  · simp [hgreater, unescape]
  simp [hand, hless, hgreater, unescape_cons hand]

theorem unescape_escapeAttribute (c : Char) (cs : List Char) :
    unescape (escapeAttribute c ++ cs) = c :: unescape cs := by
  unfold escapeAttribute
  by_cases hquote : c = '"'
  · simp [hquote, unescape]
  by_cases happos : c = '\''
  · simp [happos, unescape]
  simp only [hquote, happos, if_false]
  exact unescape_escapeText c cs

/-- What is escaped character by character is read back. -/
theorem unescape_flatMap {escape : Char → List Char}
    (h : ∀ c cs, unescape (escape c ++ cs) = c :: unescape cs) (cs : List Char) :
    unescape (cs.flatMap escape) = cs := by
  induction cs with
  | nil => simp [unescape]
  | cons c cs ih => rw [List.flatMap_cons, h, ih]

/-- The texts that characters are escaped to. -/
def entities : List String := ["&amp;", "&lt;", "&gt;", "&quot;", "&apos;"]

/-- The characters that entities are spelled with. -/
def entityChars : List Char := "&ampltgquos;".toList

theorem mem_entityChars {entity : String} (h : entity ∈ entities) {x : Char}
    (hx : x ∈ entity.toList) : x ∈ entityChars := by
  have hspelled : ∀ entity ∈ entities, entity.toList.all (entityChars.contains ·) = true := by
    decide
  exact List.contains_iff_mem.mp (List.all_eq_true.mp (hspelled entity h) x hx)

theorem mem_escapeText {c x : Char} (h : x ∈ escapeText c) :
    x ∈ entityChars ∨ x = c ∧ c ≠ '<' ∧ c ≠ '>' := by
  unfold escapeText at h
  by_cases hand : c = '&'
  · rw [if_pos hand] at h
    exact .inl (mem_entityChars (by decide) h)
  by_cases hless : c = '<'
  · rw [if_neg hand, if_pos hless] at h
    exact .inl (mem_entityChars (by decide) h)
  by_cases hgreater : c = '>'
  · rw [if_neg hand, if_neg hless, if_pos hgreater] at h
    exact .inl (mem_entityChars (by decide) h)
  rw [if_neg hand, if_neg hless, if_neg hgreater] at h
  exact .inr ⟨List.mem_singleton.mp h, hless, hgreater⟩

theorem mem_escapeAttribute {c x : Char} (h : x ∈ escapeAttribute c) :
    x ∈ entityChars ∨ x = c ∧ c ≠ '<' ∧ c ≠ '>' ∧ c ≠ '"' := by
  unfold escapeAttribute at h
  by_cases hquote : c = '"'
  · rw [if_pos hquote] at h
    exact .inl (mem_entityChars (by decide) h)
  by_cases happos : c = '\''
  · rw [if_neg hquote, if_pos happos] at h
    exact .inl (mem_entityChars (by decide) h)
  rw [if_neg hquote, if_neg happos] at h
  rcases mem_escapeText h with hentity | ⟨hx, hless, hgreater⟩
  · exact .inl hentity
  · exact .inr ⟨hx, hless, hgreater, hquote⟩

/-- No bracket is left in an escaped text. -/
theorem bracket_notMem_text {x : Char} (hx : x ∈ ['<', '>']) (cs : List Char) :
    x ∉ cs.flatMap escapeText := by
  have hentities : ∀ y ∈ ['<', '>'], y ∉ entityChars := by
    rw [List.forall_mem_cons, List.forall_mem_singleton]
    decide
  intro h
  obtain ⟨c, -, hc⟩ := List.mem_flatMap.mp h
  rcases mem_escapeText hc with hentity | ⟨rfl, hless, hgreater⟩
  · exact hentities x hx hentity
  · simp [hless, hgreater] at hx

/-- Neither a bracket nor a quote is left in an escaped value. -/
theorem delimiter_notMem_value {x : Char} (hx : x ∈ ['<', '>', '"']) (cs : List Char) :
    x ∉ cs.flatMap escapeAttribute := by
  have hentities : ∀ y ∈ ['<', '>', '"'], y ∉ entityChars := by
    rw [List.forall_mem_cons, List.forall_mem_cons, List.forall_mem_singleton]
    decide
  intro h
  obtain ⟨c, -, hc⟩ := List.mem_flatMap.mp h
  rcases mem_escapeAttribute hc with hentity | ⟨rfl, hless, hgreater, hquote⟩
  · exact hentities x hx hentity
  · simp [hless, hgreater, hquote] at hx

/-! ## Names -/

theorem isMarkupName_iff {name : String} :
    isMarkupName name = true ↔ name.toList ≠ [] ∧ ∀ c ∈ name.toList, isNameChar c = true := by
  simp [isMarkupName]

/-- A character that no name is made of does not stand in a name. -/
theorem notMem_of_isMarkupName {name : String} (h : isMarkupName name = true) {x : Char}
    (hx : isNameChar x = false) : x ∉ name.toList := by
  intro hmem
  rw [(isMarkupName_iff.mp h).2 x hmem] at hx
  exact absurd hx (by decide)

/-- A name is read up to the first character that no name is made of. -/
theorem takeWhile_name {name : String} (h : isMarkupName name = true) {rest : List Char}
    (hrest : ∀ c ∈ rest.head?, isNameChar c = false) :
    (name.toList ++ rest).takeWhile isNameChar = name.toList ∧
      (name.toList ++ rest).dropWhile isNameChar = rest := by
  have hchars := (isMarkupName_iff.mp h).2
  rw [List.takeWhile_append_of_pos hchars, List.dropWhile_append_of_pos hchars]
  cases rest with
  | nil => simp
  | cons c cs =>
    have hc : isNameChar c = false := hrest c rfl
    simp [hc]

/-! ## Attributes -/

/-- What stands in front of the value of an attribute. -/
def Attribute.lead (a : Attribute) : List Char := ' ' :: (a.name.toList ++ ['='])

theorem Attribute.isReadable_iff {a : Attribute} :
    a.isReadable = true ↔ isMarkupName a.name = true ∧ isInline a.value = false := by
  simp [isReadable]

/-- The quotes of a readable attribute stand around its value. -/
theorem Attribute.chars_eq {a : Attribute} (h : a.isReadable = true) :
    a.chars = a.lead ++ '"' :: (a.value.toList.flatMap escapeAttribute ++ ['"']) := by
  rw [chars, valueChars_of_plain (isReadable_iff.mp h).2]
  simp [lead]

theorem Attribute.notMem_lead {a : Attribute} (h : a.isReadable = true) {x : Char}
    (hx : x ∈ ['<', '>', '"']) : x ∉ a.lead := by
  have hdelimiters : ∀ y ∈ ['<', '>', '"'], isNameChar y = false ∧ y ≠ ' ' ∧ y ≠ '=' := by
    rw [List.forall_mem_cons, List.forall_mem_cons, List.forall_mem_singleton]
    decide
  obtain ⟨hchar, hblank, hequals⟩ := hdelimiters x hx
  have hname : x ∉ a.name.toList := notMem_of_isMarkupName (isReadable_iff.mp h).1 hchar
  simp [lead, hname, hblank, hequals]

theorem Attribute.bracket_notMem_chars {a : Attribute} (h : a.isReadable = true) {x : Char}
    (hx : x ∈ ['<', '>']) : x ∉ a.chars := by
  have hbrackets : ∀ y ∈ ['<', '>'], y ∈ ['<', '>', '"'] ∧ y ≠ '"' := by
    rw [List.forall_mem_cons, List.forall_mem_singleton]
    decide
  obtain ⟨hdelimiter, hquote⟩ := hbrackets x hx
  have hlead := notMem_lead h hdelimiter
  have hvalue := delimiter_notMem_value hdelimiter a.value.toList
  rw [chars_eq h]
  simp [hlead, hvalue, hquote]

/-- Cut at its quotes, an attribute is what leads it and its value. -/
theorem Attribute.splitOn_chars {a : Attribute} (h : a.isReadable = true) (rest : List Char) :
    (a.chars ++ rest).splitOn '"' =
      a.lead :: a.value.toList.flatMap escapeAttribute :: rest.splitOn '"' := by
  have hlead : '"' ∉ a.lead := notMem_lead h (by decide)
  have hvalue : '"' ∉ a.value.toList.flatMap escapeAttribute :=
    delimiter_notMem_value (by decide) _
  rw [chars_eq h, List.append_assoc, List.cons_append,
    List.splitOn_append_cons_self_of_not_mem hlead, List.append_assoc, List.singleton_append,
    List.splitOn_append_cons_self_of_not_mem hvalue]

/-- The attributes of a tag are read back, and so is how the tag ends. -/
theorem readAttributes_splitOn {attributes : List Attribute}
    (h : ∀ a ∈ attributes, a.isReadable = true) (isLone : Bool) :
    readAttributes ((attributes.flatMap Attribute.chars ++
      if isLone then [' ', '/'] else []).splitOn '"') = some (attributes, isLone) := by
  induction attributes with
  | nil => cases isLone <;> rfl
  | cons a as ih =>
    obtain ⟨ha, has⟩ := List.forall_mem_cons.mp h
    have hvalue := unescape_flatMap unescape_escapeAttribute a.value.toList
    rw [List.flatMap_cons, List.append_assoc, Attribute.splitOn_chars ha, readAttributes, ih has]
    simp [Attribute.lead, hvalue]

/-! ## Tags -/

/-- Whether a tag can be read back. -/
def Tag.isReadable : Tag → Bool
  | opening name attributes | lone name attributes => isReadableHead name attributes
  | closing name => isMarkupName name

theorem isReadableHead_iff {name : String} {attributes : List Attribute} :
    isReadableHead name attributes = true ↔
      isMarkupName name = true ∧ ∀ a ∈ attributes, a.isReadable = true := by
  simp [isReadableHead]

/-- No tag has a bracket inside. -/
theorem Tag.bracket_notMem_inside {t : Tag} (h : t.isReadable = true) {x : Char}
    (hx : x ∈ ['<', '>']) : x ∉ t.inside := by
  have hbrackets : ∀ y ∈ ['<', '>'], isNameChar y = false ∧ y ≠ ' ' ∧ y ≠ '/' := by
    rw [List.forall_mem_cons, List.forall_mem_singleton]
    decide
  obtain ⟨hchar, hblank, hslash⟩ := hbrackets x hx
  have hhead : ∀ {name attributes}, isReadableHead name attributes = true →
      x ∉ name.toList ∧ x ∉ attributes.flatMap Attribute.chars := by
    intro name attributes hreadable
    obtain ⟨hname, hattributes⟩ := isReadableHead_iff.mp hreadable
    constructor
    · exact notMem_of_isMarkupName hname hchar
    · intro hmem
      obtain ⟨a, ha, hxa⟩ := List.mem_flatMap.mp hmem
      exact Attribute.bracket_notMem_chars (hattributes a ha) hx hxa
  cases t with
  | opening name attributes => simp [inside, hhead h]
  | lone name attributes => simp [inside, hhead h, hblank, hslash]
  | closing name => simp [inside, notMem_of_isMarkupName h hchar, hslash]

/-- A tag with a name and attributes is read back. -/
theorem readTag_name {name : String} {attributes : List Attribute}
    (h : isReadableHead name attributes = true) (isLone : Bool) :
    readTag (name.toList ++ (attributes.flatMap Attribute.chars ++
      if isLone then [' ', '/'] else [])) =
      some (if isLone then .lone name attributes else .opening name attributes) := by
  obtain ⟨hname, hreadable⟩ := isReadableHead_iff.mp h
  have hattributes := readAttributes_splitOn hreadable isLone
  generalize hrest : attributes.flatMap Attribute.chars ++
    (if isLone then [' ', '/'] else []) = rest at hattributes ⊢
  -- A blank follows the name, if anything does.
  have hblank : ∀ c ∈ rest.head?, isNameChar c = false := by
    intro c hc
    have hspace : c = ' ' := by
      subst hrest
      cases attributes with
      | nil =>
        cases isLone with
        | false => simp at hc
        | true => exact (Option.some.inj hc).symm
      | cons a as => simpa [Attribute.chars, eq_comm] using hc
    rw [hspace]
    decide
  have hfirst : (name.toList ++ rest).head? ≠ some '/' := by
    obtain ⟨hne, hchars⟩ := isMarkupName_iff.mp hname
    intro hhead
    rw [List.head?_append, Option.or_of_isSome (List.isSome_head?.mpr hne)] at hhead
    have hslash := hchars '/' (List.mem_of_mem_head? hhead)
    exact absurd hslash (by decide)
  obtain ⟨htake, hdrop⟩ := takeWhile_name hname hblank
  simp only [readTag, hfirst, if_false, htake, hdrop, hattributes]
  simp

theorem readTag_inside {t : Tag} (h : t.isReadable = true) : readTag t.inside = some t := by
  cases t with
  | opening name attributes => simpa [Tag.inside] using readTag_name h false
  | lone name attributes => exact readTag_name h true
  | closing name => simp [Tag.inside, readTag]

theorem bracket_notMem_stretchChars {x : Tag × String} (h : x.1.isReadable = true) :
    '<' ∉ stretchChars x := by
  have hinside := Tag.bracket_notMem_inside h (x := '<') (by decide)
  have htext := bracket_notMem_text (x := '<') (by decide) x.2.toList
  simp only [stretchChars, List.mem_append, List.mem_cons, hinside, htext]
  decide

/-- A tag and the text behind it are read back. -/
theorem readStretch_stretchChars {x : Tag × String} (h : x.1.isReadable = true) :
    readStretch (stretchChars x) = some x := by
  have hinside := Tag.bracket_notMem_inside h (x := '>') (by decide)
  have htext := bracket_notMem_text (x := '>') (by decide) x.2.toList
  have hunescape := unescape_flatMap unescape_escapeText x.2.toList
  rw [readStretch, stretchChars, List.splitOn_append_cons_self_of_not_mem hinside,
    List.splitOn_eq_singleton htext]
  simp [readTag_inside h, hunescape]

/-- Cut at the brackets that begin tags, a text is the tags with the texts behind
    them, after what stands in front of the first tag. -/
theorem splitOn_tags {xs : List (Tag × String)} (h : ∀ x ∈ xs, x.1.isReadable = true)
    {front : List Char} (hfront : '<' ∉ front) :
    (front ++ xs.flatMap fun x => '<' :: stretchChars x).splitOn '<' =
      front :: xs.map stretchChars := by
  induction xs generalizing front with
  | nil => simpa using List.splitOn_eq_singleton hfront
  | cons x xs ih =>
    obtain ⟨hx, hxs⟩ := List.forall_mem_cons.mp h
    rw [List.flatMap_cons, List.cons_append, List.splitOn_append_cons_self_of_not_mem hfront,
      ih hxs (bracket_notMem_stretchChars hx), List.map_cons]

theorem mapM_readStretch {xs : List (Tag × String)} (h : ∀ x ∈ xs, x.1.isReadable = true) :
    (xs.map stretchChars).mapM readStretch = some xs := by
  induction xs with
  | nil => rfl
  | cons x xs ih =>
    obtain ⟨hx, hxs⟩ := List.forall_mem_cons.mp h
    simp [readStretch_stretchChars hx, ih hxs]

/-! ## Trees -/

theorem Node.isReadable_of_mem {nodes : List Node} (h : Node.allReadable nodes = true) :
    ∀ node ∈ nodes, node.isReadable = true := by
  induction nodes with
  | nil => simp
  | cons node nodes ih =>
    rw [Node.allReadable, Bool.and_eq_true] at h
    exact List.forall_mem_cons.mpr ⟨h.1, ih h.2⟩

/-- Induction over readable trees: an element has no children, or one text, or
    elements for which the claim holds. -/
@[elab_as_elim]
theorem Node.readable_induction {motive : Node → Prop}
    (lone : ∀ name attributes, isReadableHead name attributes = true →
      motive (.element name attributes []))
    (text : ∀ name attributes s, isReadableHead name attributes = true → isInline s = false →
      motive (.element name attributes [.text s]))
    (elements : ∀ name attributes child children, isReadableHead name attributes = true →
      Node.allReadable (child :: children) = true → (∀ node ∈ child :: children, motive node) →
      motive (.element name attributes (child :: children)))
    : ∀ {node : Node}, node.isReadable = true → motive node
  | .text _, h | .raw _, h => by simp [Node.isReadable] at h
  | .element name attributes children, h => by
    by_cases htext : ∃ s, children = [.text s]
    · obtain ⟨s, rfl⟩ := htext
      rw [Node.isReadable, Bool.and_eq_true] at h
      exact text name attributes s h.1 (by simpa using h.2)
    · have hparts : isReadableHead name attributes = true ∧ Node.allReadable children = true := by
        rwa [Node.isReadable, Bool.and_eq_true] at h
        intro s hs
        exact htext ⟨s, hs⟩
      have hchildren : ∀ node ∈ children, motive node := by
        intro node hnode
        have hsize := List.sizeOf_lt_of_mem hnode
        exact Node.readable_induction lone text elements
          (Node.isReadable_of_mem hparts.2 node hnode)
      cases children with
      | nil => exact lone name attributes hparts.1
      | cons child children =>
        exact elements name attributes child children hparts.1 hparts.2 hchildren
termination_by node => sizeOf node

/-- The tags of an element that has elements for children. -/
theorem Node.tags_element {name : String} {attributes : List Attribute} {child : Node}
    {children : List Node} (h : Node.allReadable (child :: children) = true) :
    (Node.element name attributes (child :: children)).tags =
      (.opening name attributes, "") ::
        (Node.allTags (child :: children) ++ [(.closing name, "")]) := by
  rw [Node.tags]
  · simp
  · intro s hs
    rw [hs] at h
    simp [Node.allReadable, Node.isReadable] at h

theorem Node.allTags_eq_flatMap (nodes : List Node) :
    Node.allTags nodes = nodes.flatMap Node.tags := by
  induction nodes with
  | nil => rfl
  | cons node nodes ih => rw [Node.allTags, ih, List.flatMap_cons]

/-! ### Writing -/

/-- In a compact document nothing stands between nodes. -/
theorem Node.allChars_compact (depth : Nat) (spread : Bool) (nodes : List Node) :
    Node.allChars .compact depth spread nodes = nodes.flatMap (Node.chars .compact depth) := by
  induction nodes with
  | nil => simp [Node.allChars]
  | cons node nodes ih => simp [Node.allChars, Layout.newline, ih]

theorem Node.chars_compact (name : String) (attributes : List Attribute) (child : Node)
    (children : List Node) (depth : Nat) :
    (Node.element name attributes (child :: children)).chars .compact depth =
      tagChars name attributes ++ '>' ::
        ((child :: children).flatMap (Node.chars .compact (depth + 1)) ++
          '<' :: '/' :: (name.toList ++ ['>'])) := by
  rw [Node.chars, Node.allChars_compact]
  simp [Layout.newline]

/-- A readable node is written tag by tag. -/
theorem Node.chars_eq_tags {node : Node} (h : node.isReadable = true) :
    ∀ depth, node.chars .compact depth = node.tags.flatMap fun x => '<' :: stretchChars x := by
  refine Node.readable_induction ?lone ?text ?elements h
  case lone =>
    intro name attributes _ depth
    simp [Node.chars, Node.tags, tagChars, stretchChars, Tag.inside]
  case text =>
    intro name attributes s _ hs depth
    rw [Node.chars_compact]
    simp [Node.chars, Node.tags, tagChars, stretchChars, Tag.inside, valueChars_of_plain hs]
  case elements =>
    intro name attributes child children _ hall ih depth
    have hchildren : (child :: children).flatMap (Node.chars .compact (depth + 1)) =
        (Node.allTags (child :: children)).flatMap fun x => '<' :: stretchChars x := by
      rw [Node.allTags_eq_flatMap, List.flatMap_assoc]
      exact List.flatMap_congr fun node hnode => ih node hnode (depth + 1)
    rw [Node.chars_compact, hchildren, Node.tags_element hall]
    simp [tagChars, stretchChars, Tag.inside]

/-! ### Reading -/

theorem Node.tags_readable {node : Node} (h : node.isReadable = true) :
    ∀ x ∈ node.tags, x.1.isReadable = true := by
  refine Node.readable_induction ?lone ?text ?elements h
  case lone =>
    intro name attributes hhead
    simpa [Node.tags, Tag.isReadable] using hhead
  case text =>
    intro name attributes s hhead _
    simp [Node.tags, Tag.isReadable, hhead, (isReadableHead_iff.mp hhead).1]
  case elements =>
    intro name attributes child children hhead hall ih x hx
    rw [Node.tags_element hall, Node.allTags_eq_flatMap] at hx
    rw [List.mem_cons, List.mem_append, List.mem_singleton] at hx
    rcases hx with rfl | hx | rfl
    · exact hhead
    · obtain ⟨node, hnode, hx⟩ := List.mem_flatMap.mp hx
      exact ih node hnode x hx
    · exact (isReadableHead_iff.mp hhead).1

/-- Nodes whose tags add them one by one are all added by the tags of all. -/
theorem Node.foldlM_allTags {nodes : List Node}
    (h : ∀ node ∈ nodes, ∀ outer stack,
      node.tags.foldlM readStep (outer :: stack) = some (outer.append [node] :: stack))
    (outer : Element) (stack : List Element) :
    (Node.allTags nodes).foldlM readStep (outer :: stack) =
      some (outer.append nodes :: stack) := by
  induction nodes generalizing outer with
  | nil => simp [Node.allTags]
  | cons node nodes ih =>
    obtain ⟨hnode, hnodes⟩ := List.forall_mem_cons.mp h
    rw [Node.allTags, List.foldlM_append, hnode]
    simp [ih hnodes, Element.append_append]

/-- The tags of a node add the node to the innermost element that is open. -/
theorem Node.foldlM_tags {node : Node} (h : node.isReadable = true) :
    ∀ outer stack,
      node.tags.foldlM readStep (outer :: stack) = some (outer.append [node] :: stack) := by
  refine Node.readable_induction ?lone ?text ?elements h
  case lone =>
    intro name attributes _ outer stack
    simp [Node.tags, readStep, Element.addElement, Element.toNode]
  case text =>
    intro name attributes s _ _ outer stack
    -- An empty text leaves no trace between its tags and is put back by the closing tag.
    by_cases hempty : s = ""
    · simp [Node.tags, readStep, hempty, Element.addElement, Element.addText, Element.toNode]
    · simp [Node.tags, readStep, hempty, Element.addElement, Element.toNode]
  case elements =>
    intro name attributes child children _ hall ih outer stack
    have hchildren := Node.foldlM_allTags ih { name, attributes } (outer :: stack)
    rw [Node.tags_element hall]
    simp [readStep, hchildren, Element.addElement, Element.toNode]

/-! ## Documents -/

/-- A readable document is read back from its compact form. -/
theorem Element.ofXml?_of_isReadable {root : Element} (h : root.isReadable = true) :
    Element.ofXml? (root.toXml .compact) = some root := by
  have htags := Node.tags_readable h
  have hsplit : (root.toXml .compact).toList.splitOn '<' =
      [] :: root.toNode.tags.map stretchChars := by
    rw [Element.toXml, String.toList_ofList, Node.chars_eq_tags h]
    exact splitOn_tags htags List.not_mem_nil
  simp only [Element.ofXml?, hsplit, mapM_readStretch htags, Option.bind_eq_bind, Option.bind_some,
    Node.foldlM_tags h]
  simp [Element.elements]

/-- Readable documents are told apart by their compact forms, from which they are
    read back as they were: each value and text character for character, and an
    element with an empty text apart from one without children. -/
theorem Element.toXml_decodable :
    Set.InjOn (Element.toXml .compact) { root | root.isReadable = true } ∧
      ∀ root : Element, root.isReadable = true →
        Element.ofXml? (root.toXml .compact) = some root := by
  constructor
  · intro root hroot root' hroot' htext
    have hread := Element.ofXml?_of_isReadable hroot
    rw [htext, Element.ofXml?_of_isReadable hroot'] at hread
    exact (Option.some.inj hread).symm
  · intro root hroot
    exact Element.ofXml?_of_isReadable hroot

/-- A document with all characters that are escaped, in a value and in a text, and
    with the given children of its last element. -/
def escapedDocument (children : List Node) : Element where
  name := "set-header"
  attributes := [{ name := "name", value := "<&>\"'&lt;" }, { name := "größe_2", value := "" }]
  children := [.element "value" [] [.text " \"a\" <b/> &amp; ' "], .element "value" [] children]

/-- An empty text and no children at all are both read back, and told apart. -/
theorem Element.toXml_decodable_empty :
    (escapedDocument [.text ""]).isReadable = true ∧ (escapedDocument []).isReadable = true ∧
      Element.ofXml? ((escapedDocument [.text ""]).toXml .compact) =
        some (escapedDocument [.text ""]) ∧
      Element.ofXml? ((escapedDocument []).toXml .compact) = some (escapedDocument []) ∧
      (escapedDocument [.text ""]).toXml .compact ≠ (escapedDocument []).toXml .compact := by
  have hempty : (escapedDocument [.text ""]).isReadable = true := by decide +kernel
  have hnone : (escapedDocument []).isReadable = true := by decide +kernel
  obtain ⟨hinjective, hread⟩ := Element.toXml_decodable
  refine ⟨hempty, hnone, hread _ hempty, hread _ hnone, ?_⟩
  intro htext
  have hequal := hinjective hempty hnone htext
  simp [escapedDocument] at hequal

end GatewayPolicy
