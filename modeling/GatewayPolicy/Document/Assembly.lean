import GatewayPolicy.Document.Marker
import GatewayPolicy.Policy.Draft

/-! # Assembling documents

  The methods of a class are visited in the order of its parts. Each method that
  is a section adds the section's element; all other methods are helpers and
  add nothing. A section may stand in the class once.

  - `Model.sectionMethods` lists the methods that are sections.
  - `assemble` gives the root element of a class. The sections are run one after the other on
    one draft.
  - `assemble_eq_emitSections`: what `assemble` gives is the emission of the sections.
-/

namespace GatewayPolicy

/-- A method that stands for a section, and the part it stands in. -/
structure SectionMethod where
  part : Part
  role : PolicySection
  method : MethodDecl
  deriving Inhabited

namespace SectionMethod

/-- The parameter that operations are called on. -/
def receiver (s : SectionMethod) : String := (s.method.parameters.head?.map (·.name)).getD ""

/-- The surroundings of the section's code. -/
def site (s : SectionMethod) (m : Model) : Site :=
  { model := m, part := s.part, receiver := s.receiver }

/-- A problem at the section's name. -/
def problemAtName (s : SectionMethod) (m : Model) (p : Problem) : Diagnostic :=
  (s.site m).diagnostic p s.method.nameSpan

/-- The section's element, from the statements in its body. -/
def emission (s : SectionMethod) (m : Model) (b : Bindings) : Emission :=
  match s.method.body with
  | some (.block statements _) =>
    (emitAll (s.site m) allKinds b statements).within { name := s.role.element }
  | _ => .ofReport (s.problemAtName m (.emptySection s.role.element))

end SectionMethod

/-- The methods of a class that are sections, in order. -/
def Model.sectionMethods (m : Model) (className : String) (kind : DocumentKind) :
    List SectionMethod :=
  (m.partsOf className).flatMap fun part => part.decl.methods.filterMap fun method =>
    (PolicySection.ofMethod? kind method.name).map fun role => { part, role, method }

/-! ## Running sections -/

namespace Draft

/-- Runs a section method on the draft of a document. -/
def addSection (m : Model) (d : Draft) (s : SectionMethod) : Draft :=
  match s.method.body with
  | some (.block statements _) =>
    let filled := (d.fork { name := s.role.element }).addStatements (s.site m) allKinds statements
    d.adopt filled
  | _ => d.report (s.problemAtName m (.emptySection s.role.element))

/-- Runs section methods, in order. A section that was seen before is reported. -/
def addSections (m : Model) (document : String) (seen : List PolicySection) (d : Draft) :
    List SectionMethod → Draft
  | [] => d
  | s :: ss =>
    let next :=
      if seen.contains s.role then
        d.report (s.problemAtName m (.duplicateSection s.role.element document))
      else d.addSection m s
    next.addSections m document (s.role :: seen) ss

end Draft

/-- The root of a document: an element around the sections. A fragment's only
    section is its root. -/
def rootOf (kind : DocumentKind) (nodes : List Node) : Element :=
  let empty : Element := { name := kind.rootElement }
  match kind with
  | .document => empty.append nodes
  | .fragment => ((nodes.head?).bind Node.toElement?).getD empty

/-- The root element of a class. -/
def assemble (m : Model) (className : String) (marker : Marker) : Reported Element :=
  let empty : Draft := { element := { name := marker.kind.rootElement } }
  let d := empty.addSections m marker.name [] (m.sectionMethods className marker.kind)
  { value := rootOf marker.kind d.element.children, diagnostics := d.diagnostics }

/-! ## Emissions -/

/-- The emission of section methods, in order. -/
def emitSections (m : Model) (document : String) (seen : List PolicySection) (b : Bindings) :
    List SectionMethod → Emission
  | [] => {}
  | s :: ss =>
    let first :=
      if seen.contains s.role then
        .ofReport (s.problemAtName m (.duplicateSection s.role.element document))
      else s.emission m b
    first.followedBy (emitSections m document (s.role :: seen) (first.bindings ++ b) ss)

theorem Draft.addSection_eq_add (m : Model) (d : Draft) (s : SectionMethod) :
    d.addSection m s = d.add (s.emission m d.bindings) := by
  unfold addSection SectionMethod.emission
  split
  · rw [addStatements_eq_add, adopt_add_fork]
    rfl
  · exact d.report_eq_add _

theorem Draft.addSections_eq_add (m : Model) (document : String) (seen : List PolicySection)
    (d : Draft) (ss : List SectionMethod) :
    d.addSections m document seen ss = d.add (emitSections m document seen d.bindings ss) := by
  induction ss generalizing d seen with
  | nil => exact d.add_empty.symm
  | cons s ss ih =>
    rw [addSections, ih, emitSections, add_followedBy]
    split
    · rw [report_eq_add]
      rfl
    · rw [addSection_eq_add]
      rfl

theorem assemble_eq_emitSections (m : Model) (className : String) (marker : Marker) :
    let e := emitSections m marker.name [] [] (m.sectionMethods className marker.kind)
    assemble m className marker =
      { value := rootOf marker.kind e.nodes, diagnostics := e.diagnostics } := by
  dsimp only
  rw [assemble, Draft.addSections_eq_add]
  rfl

end GatewayPolicy
