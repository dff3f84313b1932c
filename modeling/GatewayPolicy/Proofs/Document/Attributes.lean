import GatewayPolicy.Proofs.Document.Building
import GatewayPolicy.Proofs.Markup.Layout

/-! # Attributes of an element have different names

  An element with two attributes of one name is not well formed. Operations build no such
  element, and the elements that statements put around theirs have one attribute at most.

  - `Node.Built.distinct` has it from the way in which nodes are built.
  - `compile_attributes_nodup` says it of documents.
-/

namespace GatewayPolicy

/-! ## Distinct names in a tree -/

/-- In every element of a node the attributes have different names. -/
def Node.Distinct (n : Node) : Prop := ∀ e ∈ n.nested, e.attributeNames.Nodup

theorem Node.distinct_element {name : String} {attributes : List Attribute} {ns : List Node} :
    (Node.element name attributes ns).Distinct ↔
      (attributes.map (·.name)).Nodup ∧ ∀ n ∈ ns, n.Distinct := by
  simp only [Node.Distinct, Node.nested, List.forall_mem_cons, Node.mem_nestedOfAll,
    Element.attributeNames]
  grind

theorem Node.Built.distinct {F : Slot → String → Prop} {n : Node}
    (h : n.Built (fun _ attributes => (attributes.map (·.name)).Nodup) F) : n.Distinct := by
  induction h with
  | raw _ => exact List.forall_mem_nil _
  | text names _ =>
    refine Node.distinct_element.mpr ⟨names, List.forall_mem_singleton.mpr ?_⟩
    exact List.forall_mem_nil _
  | nodes names _ ih => exact Node.distinct_element.mpr ⟨names, ih⟩

theorem Node.distinct_invariant : NodeInvariant Node.Distinct where
  operation hnamed h := (Node.built_invariant.operation hnamed h).distinct
  bound h := (Node.built_invariant.bound h).distinct
  around _ _ _ hlength hns :=
    Node.distinct_element.mpr ⟨names_nodup_of_length hlength, hns⟩

/-! ## Documents -/

/-- In every document, every element at any depth has attributes of different names. -/
theorem compile_attributes_nodup {files : List SourceFile} {documents : List CompiledDocument}
    (h : compile files = .ok documents) :
    ∀ d ∈ documents, ∀ e ∈ d.root.toNode.nested, e.attributeNames.Nodup := by
  cases hparse : parseAll files with
  | error e =>
    rw [compile, hparse] at h
    cases h
  | ok trees =>
    rw [compile, hparse] at h
    cases h
    intro d hd
    exact Node.distinct_invariant.documents hd

/-- A filter with a field that is given twice. -/
def repeatedField : SourceFile where
  name := "a"
  text := "[Document]class C\x7bvoid Inbound(I c)\x7bc.IpFilter(new()\x7bAction=1,Action=2\x7d);\x7d\x7d"

/-- The first of the fields is read, and the other gives no attribute. -/
theorem compile_attributes_nodup_repeated :
    ∃ documents, compile [repeatedField] = .ok documents ∧
      documents.map (fun d => d.root.toNode.nested.map fun e => (e.name, e.attributes)) =
        [[("policies", []), ("inbound", []), ("ip-filter", [⟨"action", "1"⟩])]] ∧
      ∀ d ∈ documents, ∀ e ∈ d.root.toNode.nested, e.attributeNames.Nodup := by
  have helements : (compile [repeatedField]).toOption.map (fun documents =>
      documents.map fun d => d.root.toNode.nested.map fun e => (e.name, e.attributes)) =
        some [[("policies", []), ("inbound", []), ("ip-filter", [⟨"action", "1"⟩])]] := by
    decide +kernel
  cases hcompile : compile [repeatedField] with
  | error e =>
    rw [hcompile] at helements
    cases helements
  | ok documents =>
    rw [hcompile] at helements
    exact ⟨documents, rfl, Option.some.inj helements, compile_attributes_nodup hcompile⟩

end GatewayPolicy
