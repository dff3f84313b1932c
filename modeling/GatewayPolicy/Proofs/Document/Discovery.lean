import GatewayPolicy.Document.Compile
import Mathlib.Data.List.Basic

/-! # Which classes become documents

  A class may be declared in several parts, and any of them may carry the marker.
  So the first part of a class that is met says nothing about whether the class
  becomes a document, only where the document stands among the others.

  - `ClassDecl.IsMarked` says that a part carries a marker.
  - `eraseDups_pairwise` says that names without repetitions stand in the order of
    their first occurrences.
  - `Model.marked?_eq_some` describes the first part of a class with a marker.
  - `Model.walk` compiles classes on a walk over all parts, and finds the same
    documents (`Model.documents_eq_walk`).
  - `Model.documents_discovered` is the result.
-/

namespace GatewayPolicy

/-! ## First occurrences -/

section Occurrences

variable {α : Type} [DecidableEq α]

/-- Leaving out others does not change which of two comes first. -/
theorem idxOf_lt_of_filter {p : α → Bool} {x y : α} (hx : p x = true) (hy : p y = true)
    {xs : List α} (h : (xs.filter p).idxOf x < (xs.filter p).idxOf y) :
    xs.idxOf x < xs.idxOf y := by
  induction xs with
  | nil => simp at h
  | cons z zs ih =>
    by_cases hz : p z = true
    · rw [List.filter_cons_of_pos hz] at h
      by_cases hzx : z = x <;> by_cases hzy : z = y <;> simp_all [List.idxOf_cons]
    · rw [List.filter_cons_of_neg hz] at h
      have hzx : z ≠ x := by
        intro heq
        exact hz (heq ▸ hx)
      have hzy : z ≠ y := by
        intro heq
        exact hz (heq ▸ hy)
      simp [hzx, hzy, ih h]

/-- What follows for a list from the same list without its first member, however often
    that occurs, holds of all lists. -/
@[elab_as_elim]
theorem occurrence_induction {motive : List α → Prop} (nil : motive [])
    (cons : ∀ x xs, motive (xs.filter fun y => !y == x) → motive (x :: xs)) :
    ∀ xs, motive xs
  | [] => nil
  | x :: xs => cons x xs (occurrence_induction nil cons (xs.filter fun y => !y == x))
termination_by xs => xs.length
decreasing_by
  rw [List.length_cons]
  exact Nat.lt_succ_of_le (List.length_filter_le _ xs)

/-- Without repetitions, things stand in the order of their first occurrences. -/
theorem eraseDups_pairwise (xs : List α) :
    xs.eraseDups.Pairwise fun x y => xs.idxOf x < xs.idxOf y := by
  induction xs using occurrence_induction with
  | nil => simp
  | cons x xs ih =>
    rw [List.eraseDups_cons, List.pairwise_cons]
    have hother : ∀ y ∈ (xs.filter fun w => !w == x).eraseDups, (!y == x) = true := by
      intro y hy
      exact (List.mem_filter.mp (List.mem_eraseDups.mp hy)).2
    have hne : ∀ y ∈ (xs.filter fun w => !w == x).eraseDups, x ≠ y := by
      intro y hy heq
      simpa [heq] using hother y hy
    constructor
    · intro y hy
      simp [hne y hy]
    · -- The rest stands in order without `x`, and so with `x` in front of it.
      apply ih.imp_of_mem
      intro y z hy hz hlt
      have hrest := idxOf_lt_of_filter (p := fun w => !w == x) (hother y hy) (hother z hz) hlt
      simp [hne y hy, hne z hz, hrest]

theorem nodup_eraseDups (xs : List α) : xs.eraseDups.Nodup := by
  apply (eraseDups_pairwise xs).imp
  intro x y hlt heq
  rw [heq] at hlt
  omega

/-- Repetitions may be left out before or after a choice. -/
theorem eraseDups_filter (p : α → Bool) (xs : List α) :
    (xs.filter p).eraseDups = xs.eraseDups.filter p := by
  induction xs using occurrence_induction with
  | nil => simp
  | cons x xs ih =>
    rw [List.filter_filter] at ih
    rw [List.eraseDups_cons]
    by_cases hx : p x = true
    · rw [List.filter_cons_of_pos hx, List.filter_cons_of_pos hx, List.eraseDups_cons, ← ih,
        List.filter_filter]
      simp only [Bool.and_comm]
    · -- Nothing that is chosen equals `x`.
      have hskip : xs.filter (fun y => p y && !y == x) = xs.filter p := by
        apply List.filter_congr
        intro y _
        by_cases hy : y = x
        · simp [hy, hx]
        · simp [hy]
      rw [List.filter_cons_of_neg hx, List.filter_cons_of_neg hx, ← ih, hskip]

end Occurrences

/-! ## Classes of files -/

/-- The names of the classes that a file declares. -/
def SourceTree.classNames (t : SourceTree) : List String := t.classes.map (·.name)

theorem Model.map_name_parts (ts : List SourceTree) :
    (Model.parts { trees := ts }).map (·.decl.name) = ts.flatMap SourceTree.classNames := by
  rw [Model.parts, List.map_flatMap]
  apply List.flatMap_congr
  intro t _
  rw [SourceTree.parts, SourceTree.classNames, List.map_map]
  rfl

/-! ## Markers -/

/-- A class declaration with an attribute that marks a document or a fragment. -/
def ClassDecl.IsMarked (c : ClassDecl) : Prop :=
  ∃ a ∈ c.attributes, a.simpleName = "Document" ∨ a.simpleName = "Fragment"

theorem DocumentKind.isSome_ofWord? (word : String) :
    (DocumentKind.ofWord? word).isSome = true ↔ word = "Document" ∨ word = "Fragment" := by
  unfold DocumentKind.ofWord?
  rw [List.find?_isSome]
  constructor
  · intro h
    obtain ⟨kind, -, hword⟩ := h
    have hword : kind.word = word := eq_of_beq hword
    cases kind with
    | document => exact .inl hword.symm
    | fragment => exact .inr hword.symm
  · intro h
    rcases h with rfl | rfl
    · exact ⟨.document, by decide⟩
    · exact ⟨.fragment, by decide⟩

theorem ClassDecl.isSome_mark? (c : ClassDecl) : c.mark?.isSome = true ↔ c.IsMarked := by
  simp [ClassDecl.mark?, ClassDecl.IsMarked, ← DocumentKind.isSome_ofWord?]

/-- A part has a marker if it carries an attribute for one, whatever the attribute
    says. -/
theorem Part.isSome_marker (p : Part) (m : Model) :
    (p.marker m).value.isSome = true ↔ p.decl.IsMarked := by
  rw [← ClassDecl.isSome_mark?]
  unfold Part.marker
  cases p.decl.mark? with
  | none => simp
  | some mark => exact iff_of_true rfl rfl

namespace Model

/-- The first part of a class that carries a marker, in the order of all parts. -/
structure IsFirstMarked (m : Model) (className : String) (p : Part) : Prop where
  name : p.decl.name = className
  marked : p.decl.IsMarked
  first : ∃ before after, m.parts = before ++ p :: after ∧
    ∀ q ∈ before, q.decl.name = className → ¬ q.decl.IsMarked

theorem IsFirstMarked.mem_parts {m : Model} {className : String} {p : Part}
    (h : m.IsFirstMarked className p) : p ∈ m.parts := by
  obtain ⟨before, after, hparts, -⟩ := h.first
  simp [hparts]

/-- The marker of a class is that of its first part with one. -/
theorem marked?_eq_some {m : Model} {className : String} {p : Part} {marker : Reported Marker}
    (h : m.marked? className = some (p, marker)) :
    m.IsFirstMarked className p ∧ (p.marker m).value = some marker.value ∧
      (p.marker m).diagnostics = marker.diagnostics := by
  unfold marked? at h
  obtain ⟨before, q, after, hparts, hmarker, hbefore⟩ := List.findSome?_eq_some_iff.mp h
  obtain ⟨value, hvalue, heq⟩ := Option.map_eq_some_iff.mp hmarker
  obtain ⟨rfl, rfl⟩ := Prod.mk.inj heq
  -- The parts of the class are split at `q`, and so are all parts.
  obtain ⟨front, rest, hall, hfront, hrest⟩ := List.filter_eq_append_iff.mp hparts
  obtain ⟨skipped, behind, hsplit, hskipped, hname, -⟩ := List.filter_eq_cons_iff.mp hrest
  refine ⟨⟨eq_of_beq hname, ?_, front ++ skipped, behind, ?_, ?_⟩, hvalue, rfl⟩
  · rw [← Part.isSome_marker q m, hvalue]
    rfl
  · rw [hall, hsplit, List.append_assoc]
  · intro p hp hpname
    rcases List.mem_append.mp hp with hp | hp
    · have hmem : p ∈ before := by
        rw [← hfront]
        exact List.mem_filter.mpr ⟨hp, beq_iff_eq.mpr hpname⟩
      have hnone := Option.map_eq_none_iff.mp (hbefore p hmem)
      rw [← Part.isSome_marker p m, hnone]
      simp
    · exact absurd (beq_iff_eq.mpr hpname) (hskipped p hp)

theorem isSome_marked? (m : Model) (className : String) :
    (m.marked? className).isSome = true ↔
      ∃ p ∈ m.parts, p.decl.name = className ∧ p.decl.IsMarked := by
  unfold marked? partsOf
  simp [← Part.isSome_marker _ m, and_assoc]

/-! ## Documents -/

/-- A document is made from the marker of a part, and reports what is wrong with the
    marker first. -/
structure Compiles (m : Model) (p : Part) (d : CompiledDocument) : Prop where
  marker : (p.marker m).value = some d.marker
  source : d.source = p.file.name
  root : d.root = (assemble m d.className d.marker).value
  diagnostics : d.diagnostics =
    (p.marker m).diagnostics ++ (assemble m d.className d.marker).diagnostics

theorem document?_eq_some {m : Model} {className : String} {d : CompiledDocument}
    (h : m.document? className = some d) :
    d.className = className ∧ ∃ p, m.IsFirstMarked className p ∧ m.Compiles p d := by
  obtain ⟨⟨p, marker⟩, hmarked, rfl⟩ := Option.map_eq_some_iff.mp h
  obtain ⟨hfirst, hvalue, hdiagnostics⟩ := marked?_eq_some hmarked
  refine ⟨rfl, p, hfirst, hvalue, rfl, rfl, ?_⟩
  rw [hdiagnostics]

theorem isSome_document? (m : Model) (className : String) :
    (m.document? className).isSome = true ↔
      ∃ p ∈ m.parts, p.decl.name = className ∧ p.decl.IsMarked := by
  rw [document?, Option.isSome_map, isSome_marked?]

theorem mem_documents {m : Model} {d : CompiledDocument} :
    d ∈ m.documents ↔ m.document? d.className = some d := by
  unfold documents
  rw [List.mem_filterMap]
  constructor
  · intro h
    obtain ⟨className, -, hd⟩ := h
    rw [(document?_eq_some hd).1, hd]
  · intro hd
    obtain ⟨p, hp, hname, -⟩ := (m.isSome_document? d.className).mp (by rw [hd]; rfl)
    have hmem : d.className ∈ m.classNames := by
      unfold classNames
      rw [List.mem_eraseDups, ← hname]
      exact List.mem_map_of_mem hp
    exact ⟨d.className, hmem, hd⟩

/-- The documents that are found on a walk over parts. A class is compiled when a part of
    it is met, unless that has been done before; one without a marker is met again at
    each of its parts. -/
def walk (m : Model) (compiled : List String) : List Part → List CompiledDocument
  | [] => []
  | p :: ps =>
    if p.decl.name ∈ compiled then m.walk compiled ps
    else
      match m.document? p.decl.name with
      | none => m.walk compiled ps
      | some d => d :: m.walk (p.decl.name :: compiled) ps

theorem walk_eq (m : Model) (compiled : List String) (ps : List Part) :
    m.walk compiled ps = (ps.map (·.decl.name)).eraseDups.filterMap fun n =>
      if n ∈ compiled then none else m.document? n := by
  induction ps generalizing compiled with
  | nil => rfl
  | cons p ps ih =>
    rw [walk, List.map_cons, List.eraseDups_cons, eraseDups_filter, List.filterMap_cons,
      List.filterMap_filter]
    -- Further parts of the class are left out on the right. On the left they are met, and
    -- add nothing: the class was compiled by then, or it has no marker.
    by_cases hp : p.decl.name ∈ compiled
    · simp only [hp, if_true]
      rw [ih]
      congr 1
      funext n
      by_cases hn : n = p.decl.name <;> simp [hn, hp]
    · simp only [hp, if_false]
      cases hd : m.document? p.decl.name with
      | none =>
        dsimp only
        rw [ih]
        congr 1
        funext n
        by_cases hn : n = p.decl.name <;> simp [hn, hd]
      | some d =>
        dsimp only
        rw [ih]
        congr 2
        funext n
        by_cases hn : n = p.decl.name <;> simp [hn]

/-- All documents are found on a walk over all parts. -/
theorem documents_eq_walk (m : Model) : m.documents = m.walk [] m.parts := by
  rw [walk_eq]
  simp [documents, classNames]

/-- Every class with a part that carries a marker becomes one document, and no other
    class does. Documents stand in the order in which their classes are first declared,
    on a marked part or not. Each has the marker and the file of the first part of its
    class that carries one. They are found on one walk over all parts. -/
theorem documents_discovered (m : Model) :
    m.documents = m.walk [] m.parts ∧
    (m.documents.map (·.className)).Nodup ∧
    (∀ name, name ∈ m.documents.map (·.className) ↔
      ∃ p ∈ m.parts, p.decl.name = name ∧ p.decl.IsMarked) ∧
    (m.documents.Pairwise fun d d' =>
      (m.parts.map (·.decl.name)).idxOf d.className <
        (m.parts.map (·.decl.name)).idxOf d'.className) ∧
    (∀ d ∈ m.documents, ∃ p, m.IsFirstMarked d.className p ∧ m.Compiles p d) := by
  have hordered : m.documents.Pairwise fun d d' =>
      (m.parts.map (·.decl.name)).idxOf d.className <
        (m.parts.map (·.decl.name)).idxOf d'.className := by
    apply List.Pairwise.filterMap m.document? _ (eraseDups_pairwise _)
    intro n n' hlt d hd d' hd'
    rw [(document?_eq_some hd).1, (document?_eq_some hd').1]
    exact hlt
  refine ⟨m.documents_eq_walk, ?_, ?_, hordered, ?_⟩
  · rw [List.Nodup, List.pairwise_map]
    apply hordered.imp
    intro d d' hlt heq
    rw [heq] at hlt
    omega
  · intro name
    rw [← isSome_document?, List.mem_map]
    constructor
    · intro h
      obtain ⟨d, hd, rfl⟩ := h
      rw [mem_documents.mp hd]
      rfl
    · intro h
      obtain ⟨d, hd⟩ := Option.isSome_iff_exists.mp h
      have hname := (document?_eq_some hd).1
      exact ⟨d, mem_documents.mpr (hname ▸ hd), hname⟩
  · intro d hd
    exact (document?_eq_some (mem_documents.mp hd)).2

end Model

/-! ## A marker on a later part -/

namespace Spread

/-- A class with one attribute of each name. -/
def part (name : String) (attributes : List String) : ClassDecl :=
  { (default : ClassDecl) with
    name
    attributes := attributes.map fun a => { name := a, arguments := [], span := default } }

/-- The first file declares `P` without a marker and then `Q` with one; the second file
    declares `P` twice with a marker, and `R` without. -/
def model : Model where
  trees :=
    [{ file := { name := "first", text := "" }, classes := [part "P" [], part "Q" ["Document"]] },
     { file := { name := "second", text := "" }, classes :=
        [part "R" ["Obsolete"], part "P" ["Api.FragmentAttribute"], part "P" ["Document"]] }]

end Spread

open Spread in
/-- The document of `P` stands first, where `P` is first declared, and comes from the
    second file, where its first marker is. -/
theorem Model.documents_discovered_spread :
    model.documents.map (fun d => (d.className, d.source, d.marker.kind)) =
      [("P", "second", .fragment), ("Q", "first", .document)] ∧
    (∀ name, name ∈ ["P", "Q"] ↔ ∃ p ∈ model.parts, p.decl.name = name ∧ p.decl.IsMarked) ∧
    (model.documents.map (·.className)).Nodup := by
  have hdocuments : model.documents.map (fun d => (d.className, d.source, d.marker.kind)) =
      [("P", "second", .fragment), ("Q", "first", .document)] := by
    decide +kernel
  have hnames : model.documents.map (·.className) = ["P", "Q"] := by
    decide +kernel
  obtain ⟨-, hnodup, hmem, -, -⟩ := model.documents_discovered
  rw [hnames] at hmem
  exact ⟨hdocuments, hmem, hnodup⟩

end GatewayPolicy
