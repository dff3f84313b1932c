import GatewayPolicy.Document.Compile
import Mathlib.Data.List.Basic

/-! # What a document depends on

  A document is made from the parts of its class. All other classes come in at two
  places only: where constants are evaluated for the marker, and where the code of the
  sections is compiled.

  - `Part.marker_eq` says that a marker depends on the values of its arguments.
  - `assemble_eq` says that the root depends on what the sections emit.
  - `Model.document?_eq` follows: two compilations with the same parts of a class, in
    which its markers and its sections mean the same, make the same document of it.
-/

namespace GatewayPolicy

variable {m m' : Model}

/-! ## Markers -/

namespace Part

variable {p : Part} {e : Expr}

theorem markerText_eq (h : m.evaluate p.decl.name e = m'.evaluate p.decl.name e) :
    p.markerText m e = p.markerText m' e := by
  rw [markerText, markerText, h]

theorem markerName_eq (h : m.evaluate p.decl.name e = m'.evaluate p.decl.name e) :
    p.markerName m e = p.markerName m' e := by
  rw [markerName, markerName, markerText_eq h]

theorem markerScope_eq (h : m.evaluate p.decl.name e = m'.evaluate p.decl.name e) :
    p.markerScope m e = p.markerScope m' e := by
  unfold markerScope
  rw [markerText_eq h, h]

theorem markerArguments_eq (name scope : Option String) {arguments : List Argument}
    (h : ∀ x ∈ arguments, m.evaluate p.decl.name x.value = m'.evaluate p.decl.name x.value) :
    p.markerArguments m name scope arguments = p.markerArguments m' name scope arguments := by
  induction arguments generalizing name scope with
  | nil => rfl
  | cons x xs ih =>
    obtain ⟨hx, hxs⟩ := List.forall_mem_cons.mp h
    have hrest : ∀ name scope, p.markerArguments m name scope xs =
        p.markerArguments m' name scope xs := fun name scope => ih name scope hxs
    simp only [markerArguments, markerName_eq hx, markerScope_eq hx, hrest]

/-- The marker of a part depends on the values that the arguments of its attributes
    have in the class. -/
theorem marker_eq (h : ∀ a ∈ p.decl.attributes, ∀ x ∈ a.arguments,
      m.evaluate p.decl.name x.value = m'.evaluate p.decl.name x.value) :
    p.marker m = p.marker m' := by
  unfold marker
  cases hmark : p.decl.mark? with
  | none => rfl
  | some mark =>
    obtain ⟨a, kind⟩ := mark
    obtain ⟨b, hb, hkind⟩ := List.exists_of_findSome?_eq_some hmark
    obtain ⟨k, -, heq⟩ := Option.map_eq_some_iff.mp hkind
    obtain ⟨rfl, rfl⟩ := Prod.mk.inj heq
    dsimp only
    rw [markerArguments_eq none none (h b hb)]

end Part

/-! ## Sections -/

/-- Sections that emit the same each on its own emit the same in order. -/
theorem emitSections_eq (document : String) (seen : List PolicySection) (b : Bindings)
    {ss : List SectionMethod} (h : ∀ s ∈ ss, ∀ b, s.emission m b = s.emission m' b) :
    emitSections m document seen b ss = emitSections m' document seen b ss := by
  induction ss generalizing seen b with
  | nil => rfl
  | cons s ss ih =>
    obtain ⟨hs, hss⟩ := List.forall_mem_cons.mp h
    -- A report at the name of a section looks at the file only.
    have hreport : ∀ problem, s.problemAtName m problem = s.problemAtName m' problem :=
      fun _ => rfl
    rw [emitSections, emitSections, hs, hreport, ih _ _ hss]

theorem assemble_eq {className : String} {marker : Marker}
    (hparts : m.partsOf className = m'.partsOf className)
    (hsections : ∀ s ∈ m.sectionMethods className marker.kind, ∀ b,
      s.emission m b = s.emission m' b) :
    assemble m className marker = assemble m' className marker := by
  have hmethods : m'.sectionMethods className marker.kind =
      m.sectionMethods className marker.kind := by
    rw [Model.sectionMethods, Model.sectionMethods, hparts]
  rw [assemble_eq_emitSections, assemble_eq_emitSections, hmethods, emitSections_eq _ _ _ hsections]

/-! ## Documents -/

namespace Model

theorem marked?_eq {className : String} (hparts : m.partsOf className = m'.partsOf className)
    (hmarker : ∀ p ∈ m.partsOf className, p.marker m = p.marker m') :
    m.marked? className = m'.marked? className := by
  unfold marked?
  rw [← hparts, ← List.head?_filterMap, ← List.head?_filterMap]
  congr 1
  apply List.filterMap_congr
  intro p hp
  rw [hmarker p hp]

/-- The document of a class depends on its parts, their markers, and what its sections
    emit. -/
theorem document?_eq {className : String} (hparts : m.partsOf className = m'.partsOf className)
    (hmarker : ∀ p ∈ m.partsOf className, p.marker m = p.marker m')
    (hsections : ∀ kind, ∀ s ∈ m.sectionMethods className kind, ∀ b,
      s.emission m b = s.emission m' b) :
    m.document? className = m'.document? className := by
  have hroot : ∀ marker, assemble m className marker = assemble m' className marker :=
    fun marker => assemble_eq hparts (hsections marker.kind)
  unfold document?
  rw [marked?_eq hparts hmarker]
  simp only [hroot]

end Model

end GatewayPolicy
