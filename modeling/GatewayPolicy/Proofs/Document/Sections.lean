import GatewayPolicy.Document.Assembly
import GatewayPolicy.Policy.Draft
import Mathlib.Data.List.Nodup

/-! # How a class becomes a document

  A class may be spread over files, and a section may be written twice or
  without a body. Each section method is visited once, and what it contributes
  depends on two things only: whether the section was met before, and whether
  the method has a block.

  - `SectionMethod.Contributes` lists the three things that a method may
    contribute.
  - `Visited` is a visit of all methods, one after the other. `emitSections` is
    one, and the elements of a visit have distinct names.
  - `assemble_sections` puts this together for documents and for fragments.
-/

namespace GatewayPolicy

/-! ## Emissions in order -/

namespace Emission

/-- Some emissions, one after the other. -/
def inOrder (es : List Emission) : Emission := es.foldr followedBy {}

@[simp] theorem inOrder_cons (e : Emission) (es : List Emission) :
    inOrder (e :: es) = e.followedBy (inOrder es) := rfl

theorem nodes_inOrder (es : List Emission) : (inOrder es).nodes = es.flatMap (·.nodes) := by
  induction es with
  | nil => rfl
  | cons e es ih => rw [inOrder_cons, followedBy, ih, List.flatMap_cons]

theorem diagnostics_inOrder (es : List Emission) :
    (inOrder es).diagnostics = es.flatMap (·.diagnostics) := by
  induction es with
  | nil => rfl
  | cons e es ih => rw [inOrder_cons, followedBy, ih, List.flatMap_cons]

end Emission

open Emission

/-! ## Section methods -/

namespace PolicySection

/-- Different sections become elements of different names. -/
theorem element_injective {r s : PolicySection} (h : r.element = s.element) : r = s := by
  revert h
  cases r <;> cases s <;> decide

/-- A fragment has one section. -/
theorem eq_fragment {r : PolicySection} (h : r.kind = .fragment) : r = .fragment := by
  revert h
  cases r <;> decide

theorem ofMethod?_eq_some {kind : DocumentKind} {name : String} {r : PolicySection}
    (h : ofMethod? kind name = some r) : r.method = name ∧ r.kind = kind := by
  have hr := List.find?_some h
  simpa using hr

theorem isSome_ofMethod? (kind : DocumentKind) (name : String) :
    (ofMethod? kind name).isSome = all.any fun r => r.method == name && r.kind == kind := by
  rw [ofMethod?, Bool.eq_iff_iff, List.find?_isSome, List.any_eq_true]

end PolicySection

/-- Whether a method of a class of some kind stands for a section. -/
def MethodDecl.isSection (kind : DocumentKind) (d : MethodDecl) : Bool :=
  PolicySection.all.any fun r => r.method == d.name && r.kind == kind

theorem Model.mem_sectionMethods {m : Model} {className : String} {kind : DocumentKind}
    {s : SectionMethod} (h : s ∈ m.sectionMethods className kind) :
    s.part ∈ m.partsOf className ∧ s.role.method = s.method.name ∧ s.role.kind = kind := by
  rw [sectionMethods, List.mem_flatMap] at h
  obtain ⟨part, hpart, h⟩ := h
  rw [List.mem_filterMap] at h
  obtain ⟨method, -, h⟩ := h
  rw [Option.map_eq_some_iff] at h
  obtain ⟨role, hrole, rfl⟩ := h
  exact ⟨hpart, PolicySection.ofMethod?_eq_some hrole⟩

theorem Model.method_mem_of_section {m : Model} {className : String} {kind : DocumentKind}
    {s : SectionMethod} (h : s ∈ m.sectionMethods className kind) :
    s.method ∈ s.part.decl.methods := by
  obtain ⟨part, -, h⟩ := List.mem_flatMap.mp h
  obtain ⟨method, hmethod, h⟩ := List.mem_filterMap.mp h
  obtain ⟨role, -, rfl⟩ := Option.map_eq_some_iff.mp h
  exact hmethod

/-- The section methods are the methods with a section's name, part by part. -/
theorem Model.sectionMethods_map (m : Model) (className : String) (kind : DocumentKind) :
    (m.sectionMethods className kind).map (fun s => (s.part, s.method)) =
      (m.partsOf className).flatMap fun part =>
        (part.decl.methods.filter (·.isSection kind)).map (part, ·) := by
  rw [sectionMethods, List.map_flatMap]
  apply List.flatMap_congr
  intro part _
  induction part.decl.methods with
  | nil => rfl
  | cons d ds ih =>
    have hsome := PolicySection.isSome_ofMethod? kind d.name
    cases hrole : PolicySection.ofMethod? kind d.name with
    | none =>
      have hd : d.isSection kind = false := by
        rw [hrole] at hsome
        exact hsome.symm
      simpa [hrole, hd] using ih
    | some role =>
      have hd : d.isSection kind = true := by
        rw [hrole] at hsome
        exact hsome.symm
      simpa [hrole, hd] using ih

/-! ## Contributions -/

/-- What a section method contributes, when the sections in `seen` were met
    before it and the local names in `b` are bound. -/
inductive SectionMethod.Contributes (m : Model) (document : String) (seen : List PolicySection)
    (b : Bindings) (s : SectionMethod) : Emission → Prop where
  /-- The first method of the section has a block: the section's element, filled
      by the statements of the block, with what they report and bind. -/
  | element (e : Emission) (filled : Element) (statements : List Stmt) (span : Span)
      (first : s.role ∉ seen) (body : s.method.body = some (.block statements span))
      (nodes : e.nodes = [filled.toNode]) (name : filled.name = s.role.element)
      (attributes : filled.attributes = [])
      (compiled : Draft.addStatements (s.site m) allKinds
          { element := { name := s.role.element }, bindings := b } statements =
        { element := filled, diagnostics := e.diagnostics, bindings := e.bindings ++ b }) :
      Contributes m document seen b s e
  /-- The first method of the section has no block. -/
  | empty (first : s.role ∉ seen)
      (body : ∀ statements span, s.method.body ≠ some (.block statements span)) :
      Contributes m document seen b s
        (.ofReport ((s.site m).diagnostic (.emptySection s.role.element) s.method.nameSpan))
  /-- The section was met before. -/
  | duplicate (later : s.role ∈ seen) :
      Contributes m document seen b s (.ofReport ((s.site m).diagnostic
        (.duplicateSection s.role.element document) s.method.nameSpan))

/-- What the first method of a section emits is what it contributes. -/
theorem SectionMethod.emission_contributes (m : Model) (document : String)
    {seen : List PolicySection} (b : Bindings) {s : SectionMethod} (h : s.role ∉ seen) :
    s.Contributes m document seen b (s.emission m b) := by
  unfold emission
  split
  · rename_i statements span hbody
    exact .element _ _ statements span h hbody rfl rfl rfl (Draft.addStatements_eq_add ..)
  · rename_i hbody
    exact .empty h hbody

/-- A visit of section methods in order: what each contributes. -/
inductive Visited (m : Model) (document : String) :
    List PolicySection → Bindings → List SectionMethod → List Emission → Prop where
  | nil (seen : List PolicySection) (b : Bindings) : Visited m document seen b [] []
  | cons {seen : List PolicySection} {b : Bindings} {s : SectionMethod} {e : Emission}
      {ss : List SectionMethod} {es : List Emission} (head : s.Contributes m document seen b e)
      (tail : Visited m document (s.role :: seen) (e.bindings ++ b) ss es) :
      Visited m document seen b (s :: ss) (e :: es)

/-- The emission of section methods is that of a visit. -/
theorem emitSections_visited (m : Model) (document : String) (seen : List PolicySection)
    (b : Bindings) (ss : List SectionMethod) :
    ∃ es, Visited m document seen b ss es ∧ emitSections m document seen b ss = inOrder es := by
  induction ss generalizing seen b with
  | nil => exact ⟨[], .nil seen b, rfl⟩
  | cons s ss ih =>
    have hstep : ∀ first : Emission, s.Contributes m document seen b first →
        ∃ es, Visited m document seen b (s :: ss) es ∧
          first.followedBy (emitSections m document (s.role :: seen) (first.bindings ++ b) ss) =
            inOrder es := by
      intro first hfirst
      obtain ⟨es, hes, hrest⟩ := ih (s.role :: seen) (first.bindings ++ b)
      exact ⟨first :: es, .cons hfirst hes, by rw [hrest, inOrder_cons]⟩
    rw [emitSections]
    by_cases hseen : s.role ∈ seen
    · rw [if_pos (List.contains_iff_mem.mpr hseen)]
      exact hstep _ (.duplicate hseen)
    · rw [if_neg (fun hc => hseen (List.contains_iff_mem.mp hc))]
      exact hstep _ (SectionMethod.emission_contributes m document b hseen)

namespace Visited

variable {m : Model} {document : String} {seen : List PolicySection} {b : Bindings}
  {ss : List SectionMethod} {es : List Emission}

theorem length_eq (h : Visited m document seen b ss es) : es.length = ss.length := by
  induction h with
  | nil => rfl
  | cons _ _ ih => rw [List.length_cons, List.length_cons, ih]

/-- Each method contributes in the light of the methods before it. -/
theorem contributes (h : Visited m document seen b ss es) {i : Nat} {s : SectionMethod}
    {e : Emission} (hs : ss[i]? = some s) (he : es[i]? = some e) :
    s.Contributes m document (((ss.take i).map (·.role)).reverse ++ seen)
      ((inOrder (es.take i)).bindings ++ b) e := by
  induction h generalizing i with
  | nil => simp at hs
  | cons head tail ih =>
    cases i with
    | zero =>
      obtain rfl : _ = s := by simpa using hs
      obtain rfl : _ = e := by simpa using he
      exact head
    | succ i =>
      have htail := ih (by simpa using hs) (by simpa using he)
      simpa [followedBy] using htail

/-- The nodes of a visit are elements of distinct sections that were not seen
    before, in the order of the methods. -/
theorem elements (h : Visited m document seen b ss es) :
    ∃ elements : List Element, (inOrder es).nodes = elements.map Element.toNode ∧
      ∃ roles : List PolicySection, elements.map (·.name) = roles.map PolicySection.element ∧
        roles.Sublist (ss.map (·.role)) ∧ roles.Nodup ∧ ∀ r ∈ roles, r ∉ seen := by
  induction h with
  | nil => exact ⟨[], rfl, [], rfl, .slnil, List.nodup_nil, by simp⟩
  | @cons seen b s e ss es head tail ih =>
    obtain ⟨elements, hnodes, roles, hnames, hsub, hnodup, hfresh⟩ := ih
    have hkeep : ∀ r ∈ roles, r ∉ seen := by
      intro r hr hseen
      exact hfresh r hr (List.mem_cons_of_mem _ hseen)
    cases head with
    | element _ filled statements span first body nodes name attributes compiled =>
      refine ⟨filled :: elements, ?_, s.role :: roles, ?_, hsub.cons_cons _, ?_, ?_⟩
      · rw [inOrder_cons, followedBy, nodes, hnodes]
        rfl
      · rw [List.map_cons, List.map_cons, hnames, name]
      · rw [List.nodup_cons]
        exact ⟨fun hr => hfresh _ hr (List.mem_cons_self ..), hnodup⟩
      · intro r hr
        rcases List.mem_cons.mp hr with rfl | hr
        · exact first
        · exact hkeep r hr
    | empty first body => exact ⟨elements, hnodes, roles, hnames, hsub.cons _, hnodup, hkeep⟩
    | duplicate later => exact ⟨elements, hnodes, roles, hnames, hsub.cons _, hnodup, hkeep⟩

end Visited

/-- A list of one thing without repetition has one member at most. -/
theorem length_le_one_of_nodup {α : Type} {xs : List α} {a : α} (hnodup : xs.Nodup)
    (h : ∀ x ∈ xs, x = a) : xs.length ≤ 1 := by
  rw [List.eq_replicate_of_mem h] at hnodup
  exact List.nodup_replicate.mp hnodup

/-! ## Roots -/

/-- The root of a fragment is the one section that it has. -/
theorem rootOf_fragment (elements : List Element) :
    rootOf .fragment (elements.map Element.toNode) =
      elements.head?.getD { name := "fragment" } := by
  cases elements <;> rfl

theorem rootOf_document (nodes : List Node) :
    rootOf .document nodes = { name := "policies", children := nodes } := rfl

/-- The methods of a class that stand for sections are visited in the order of
    the files and declarations. Each contributes in the light of those before it,
    and nothing else is reported. The root of a document holds the elements of the
    visit, which have distinct names and are in the order of the methods; the root of
    a fragment is the only one of them, or an empty one. -/
theorem assemble_sections (m : Model) (className : String) (marker : Marker) :
    let ss := m.sectionMethods className marker.kind
    ss.map (fun s => (s.part, s.method)) =
      ((m.partsOf className).flatMap fun part =>
        (part.decl.methods.filter (·.isSection marker.kind)).map (part, ·)) ∧
    (∀ s ∈ ss, s.role.method = s.method.name ∧ s.role.kind = marker.kind) ∧
    ∃ es : List Emission, es.length = ss.length ∧
      (∀ (i : Nat) (s : SectionMethod) (e : Emission), ss[i]? = some s → es[i]? = some e →
        s.Contributes m marker.name ((ss.take i).map (·.role)).reverse
          (inOrder (es.take i)).bindings e) ∧
      (assemble m className marker).diagnostics = es.flatMap (·.diagnostics) ∧
      ∃ elements : List Element, es.flatMap (·.nodes) = elements.map Element.toNode ∧
        (elements.map (·.name)).Sublist (ss.map (·.role.element)) ∧ (elements.map (·.name)).Nodup ∧
        match marker.kind with
        | .document => (assemble m className marker).value =
            { name := "policies", children := elements.map Element.toNode }
        | .fragment => elements.length ≤ 1 ∧ (assemble m className marker).value =
            elements.head?.getD { name := "fragment" } := by
  intro ss
  refine ⟨m.sectionMethods_map className marker.kind,
    fun s hs => (Model.mem_sectionMethods hs).2, ?_⟩
  obtain ⟨es, hvisit, hemission⟩ := emitSections_visited m marker.name [] [] ss
  obtain ⟨elements, hnodes, roles, hnames, hsub, hnodup, -⟩ := hvisit.elements
  have hnodes' : es.flatMap (·.nodes) = elements.map Element.toNode := by
    rw [← nodes_inOrder, hnodes]
  have hvalue : (assemble m className marker).value =
      rootOf marker.kind (elements.map Element.toNode) := by
    rw [assemble_eq_emitSections, hemission]
    dsimp only
    rw [hnodes]
  refine ⟨es, hvisit.length_eq, ?_, ?_, elements, hnodes', ?_, ?_, ?_⟩
  · intro i s e hs he
    simpa using hvisit.contributes hs he
  · rw [assemble_eq_emitSections, hemission, ← diagnostics_inOrder]
  · rw [hnames]
    have h := hsub.map PolicySection.element
    rwa [List.map_map] at h
  · rw [hnames]
    exact hnodup.map fun r s h => PolicySection.element_injective h
  · rw [hvalue]
    cases hkind : marker.kind with
    | document => exact rootOf_document _
    | fragment =>
      -- All sections of a fragment are one and the same, and none stands twice.
      have hall : ∀ r ∈ roles, r = .fragment := by
        intro r hr
        obtain ⟨s, hs, rfl⟩ := List.mem_map.mp (hsub.subset hr)
        exact PolicySection.eq_fragment ((Model.mem_sectionMethods hs).2.2.trans hkind)
      have hlength : roles.length ≤ 1 := length_le_one_of_nodup hnodup hall
      have hcount : elements.length = roles.length := by
        simpa using congrArg List.length hnames
      exact ⟨by omega, rootOf_fragment elements⟩

end GatewayPolicy
