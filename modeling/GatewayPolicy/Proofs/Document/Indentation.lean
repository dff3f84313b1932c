import GatewayPolicy.Proofs.Document.Building
import GatewayPolicy.Proofs.Markup.Layout

/-! # Indenting documents

  Indentation is safe if texts stand alone in their elements. Operations see to that:
  the children of the elements they build are elements, or there is one text. Markup
  stands only where operations stand.

  - `Node.Built.unmixed` has it from the way in which nodes are built.
  - `Model.documents_indented` compares the two layouts of a document.
-/

namespace GatewayPolicy

theorem Node.Built.unmixed {T : String → List Attribute → Prop} {F : Slot → String → Prop}
    {n : Node} (h : n.Built T F) : n.Unmixed := by
  induction h with
  | raw _ => exact .raw _
  | text _ _ => exact .texts _ _ (List.forall_mem_singleton.mpr rfl)
  | nodes _ _ ih => exact .nodes _ _ ih

theorem Node.unmixed_invariant : NodeInvariant Node.Unmixed where
  operation hnamed h := (Node.built_invariant.operation hnamed h).unmixed
  bound h := (Node.built_invariant.bound h).unmixed
  around name attributes _ _ hns := .nodes name attributes hns

/-! ## Layouts of documents -/

/-- In a document no element holds a text beside other children. Its two layouts are made
    of the same segments: the compact one has nothing between them, and the indented one has
    line breaks and blanks in front of the tags of inner elements, of markup, and of the end
    tags of elements with elements in them. An element that holds a text is written in the
    same way in both. -/
theorem Model.documents_indented {m : Model} {d : CompiledDocument} (h : d ∈ m.documents) :
    (∀ e ∈ d.root.toNode.nested, e.isUnmixed = true) ∧
    (d.root.toXml .compact).toList = d.root.segments.flatMap Segment.chars ∧
    ∀ width : Nat,
      (d.root.toXml (.indented width)).toList =
        (d.root.segments.flatMap fun s => s.gap width ++ s.chars) ∧
      ∀ e ∈ d.root.toNode.nested, e.children.any Node.isText = true → ∀ depth,
        e.toNode.chars (.indented width) depth = e.toNode.chars .compact depth := by
  have hroot : d.root.toNode.Unmixed := Node.unmixed_invariant.documents h
  have hnested := hroot.nested
  refine ⟨hnested, ?_, ?_⟩
  · rw [Element.toXml, String.toList_ofList]
    exact Node.chars_segments false 0 _
  · intro width
    constructor
    · rw [Element.toXml, String.toList_ofList]
      -- the outermost element starts no line
      exact hroot.chars_indented width false 0
    · intro e he htext depth
      exact e.chars_of_text (hnested e he) htext _ depth

/-- A section that sets the body and copies markup. -/
def markupFile : SourceFile where
  name := "a"
  text := "[Document]class C\x7bvoid Inbound(I c)\x7bc.SetBody(\"a\");c.InlinePolicy(\"<b/>\");\x7d\x7d"

/-- The class of the section. -/
def markupModel : Model where
  trees := (parseAll [markupFile]).toOption.getD []

/-- The text of the body keeps its place, and the markup beside it starts a line. -/
theorem Model.documents_indented_markup :
    ∃ d ∈ markupModel.documents,
      d.root.toXml .compact =
        "<policies><inbound><set-body>a</set-body><b/></inbound></policies>" ∧
      d.root.toXml (.indented 1) =
        "<policies>\n <inbound>\n  <set-body>a</set-body>\n  <b/>\n </inbound>\n</policies>" ∧
      (∀ e ∈ d.root.toNode.nested, e.isUnmixed = true) ∧
      (d.root.toXml .compact).toList = d.root.segments.flatMap Segment.chars ∧
      ∀ width : Nat,
        (d.root.toXml (.indented width)).toList =
          (d.root.segments.flatMap fun s => s.gap width ++ s.chars) ∧
        ∀ e ∈ d.root.toNode.nested, e.children.any Node.isText = true → ∀ depth,
          e.toNode.chars (.indented width) depth = e.toNode.chars .compact depth := by
  have hwritten : markupModel.documents.map (fun d =>
      (d.root.toXml .compact, d.root.toXml (.indented 1))) =
        [("<policies><inbound><set-body>a</set-body><b/></inbound></policies>",
          "<policies>\n <inbound>\n  <set-body>a</set-body>\n  <b/>\n </inbound>\n</policies>")] := by
    decide +kernel
  obtain ⟨d, hdocuments, hlayouts⟩ := List.map_eq_singleton_iff.mp hwritten
  have hd : d ∈ markupModel.documents := by
    rw [hdocuments]
    exact List.mem_singleton_self d
  obtain ⟨hcompact, hindented⟩ := Prod.mk.inj hlayouts
  exact ⟨d, hd, hcompact, hindented, Model.documents_indented hd⟩

end GatewayPolicy
