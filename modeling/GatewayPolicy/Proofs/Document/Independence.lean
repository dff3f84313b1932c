import GatewayPolicy.Proofs.Document.FileOrder
import GatewayPolicy.Proofs.Document.Formatting
import GatewayPolicy.Proofs.Document.Sections

/-! # Sections compile on their own

  The local names of a document are shared by its sections: a name that one
  section binds may be used by the sections after it. So the order of the
  sections matters to a section that uses a name which it does not bind itself, and
  to no other.

  - `SectionMethod.openNames` lists the names that a section uses and does not
    bind. A section is `Independent` if no other section declares one of them.
  - `emissionsFrom` lists what each section emits in its place.
  - `Model.Matched.exists_section` finds a section in another compilation of the same
    members, wherever it stands there.
  - `assemble_reordered` says that an independent section emits the same in every
    order of the sections.
  - `Model.matched_of_perm`: a class may be spread over files, which may be given in any
    order.
-/

namespace GatewayPolicy

open Emission

namespace SectionMethod

/-- The names that a section uses where it has not bound them. -/
def openNames (s : SectionMethod) (m : Model) : List String :=
  match s.method.body with
  | some (.block statements _) => openNamesInAll (s.site m) allKinds [] statements
  | _ => []

/-- The names that a section declares. -/
def declared (s : SectionMethod) : List String :=
  match s.method.body with
  | some (.block statements _) => declaredInAll statements
  | _ => []

/-- No other section declares a name that this one leaves open. -/
def Independent (s : SectionMethod) (m : Model) (ss : List SectionMethod) : Prop :=
  ∀ n ∈ s.openNames m, ∀ t ∈ ss, t.role ≠ s.role → n ∉ t.declared

instance (s : SectionMethod) (m : Model) (ss : List SectionMethod) :
    Decidable (s.Independent m ss) :=
  inferInstanceAs (Decidable (∀ n ∈ s.openNames m, ∀ t ∈ ss, t.role ≠ s.role → n ∉ t.declared))

/-- The body of a section is a block. -/
def HasBlock (s : SectionMethod) : Prop :=
  ∃ statements span, s.method.body = some (.block statements span)

instance (s : SectionMethod) : Decidable s.HasBlock :=
  match h : s.method.body with
  | some (.block statements span) => isTrue ⟨statements, span, h⟩
  | some (.expression _) | none => isFalse fun ⟨_, _, h'⟩ => nomatch h.symm.trans h'

/-- A section leaves the names that it does not declare. -/
theorem emission_lookup? (s : SectionMethod) (m : Model) (b : Bindings) {n : String}
    (h : n ∉ s.declared) : ((s.emission m b).bindings ++ b).lookup? n = b.lookup? n := by
  unfold emission
  split
  · rename_i statements span hbody
    rw [declared, hbody] at h
    exact emitAll_lookup? (s.site m) allKinds b statements h
  · rfl

/-- What a section emits depends on the names that it leaves open, not on other
    bindings made before it. -/
theorem emission_alone (s : SectionMethod) (m : Model) {b : Bindings}
    (h : ∀ n ∈ s.openNames m, b.lookup? n = none) : s.emission m b = s.emission m [] := by
  unfold emission
  unfold openNames at h
  split
  · rename_i statements span hbody
    rw [hbody] at h
    have hall : emitAll (s.site m) allKinds ([] ++ b) statements =
        emitAll (s.site m) allKinds [] statements := emitAll_alike (Site.Alike.refl _) h
    rw [← hall, List.nil_append]
  · rfl

/-- A section with a block emits its element. -/
theorem HasBlock.nodes_emission {s : SectionMethod} (h : s.HasBlock) (m : Model) (b : Bindings) :
    ∃ filled : Element, (s.emission m b).nodes = [filled.toNode] ∧
      filled.name = s.role.element := by
  obtain ⟨statements, span, h⟩ := h
  unfold emission
  rw [h]
  exact ⟨_, rfl, rfl⟩

end SectionMethod

/-! ## Sections in order -/

/-- What sections emit in their places: each sees the names that those before it
    bound. -/
def emissionsFrom (m : Model) (b : Bindings) :
    List SectionMethod → List (PolicySection × Emission)
  | [] => []
  | s :: ss =>
    let e := s.emission m b
    (s.role, e) :: emissionsFrom m (e.bindings ++ b) ss

/-- What the sections of a class emit in their places. -/
def Model.sectionEmissions (m : Model) (className : String) (kind : DocumentKind) :
    List (PolicySection × Emission) :=
  emissionsFrom m [] (m.sectionMethods className kind)

/-- A document made of its sections. -/
def documentOf (sections : List (PolicySection × Emission)) : Reported Element where
  value := { name := "policies", children := sections.flatMap (·.2.nodes) }
  diagnostics := sections.flatMap (·.2.diagnostics)

theorem map_fst_emissionsFrom (m : Model) (b : Bindings) (ss : List SectionMethod) :
    (emissionsFrom m b ss).map (·.1) = ss.map (·.role) := by
  induction ss generalizing b with
  | nil => rfl
  | cons s ss ih => rw [emissionsFrom, List.map_cons, List.map_cons, ih]

theorem Model.map_fst_sectionEmissions (m : Model) (className : String) (kind : DocumentKind) :
    (m.sectionEmissions className kind).map (·.1) =
      (m.sectionMethods className kind).map (·.role) :=
  map_fst_emissionsFrom m [] _

/-- Sections that are written once each emit in their places. -/
theorem emitSections_of_nodup {m : Model} {document : String} {seen : List PolicySection}
    {b : Bindings} {ss : List SectionMethod} (hnodup : (ss.map (·.role)).Nodup)
    (hseen : ∀ s ∈ ss, s.role ∉ seen) :
    emitSections m document seen b ss = inOrder ((emissionsFrom m b ss).map (·.2)) := by
  induction ss generalizing seen b with
  | nil => rfl
  | cons s ss ih =>
    rw [List.map_cons, List.nodup_cons] at hnodup
    have hfirst : ¬ seen.contains s.role = true := by
      intro hc
      exact hseen s (List.mem_cons_self ..) (List.contains_iff_mem.mp hc)
    have hrest : ∀ t ∈ ss, t.role ∉ s.role :: seen := by
      intro t ht hmem
      rcases List.mem_cons.mp hmem with heq | hmem
      · exact hnodup.1 (heq ▸ List.mem_map_of_mem ht)
      · exact hseen t (List.mem_cons_of_mem _ ht) hmem
    rw [emitSections, if_neg hfirst, ih hnodup.2 hrest]
    rfl

theorem assemble_of_nodup {m : Model} {className : String} {marker : Marker}
    (hkind : marker.kind = .document)
    (hnodup : ((m.sectionMethods className .document).map (·.role)).Nodup) :
    assemble m className marker = documentOf (m.sectionEmissions className .document) := by
  rw [assemble_eq_emitSections, documentOf, Model.sectionEmissions]
  rw [hkind, emitSections_of_nodup hnodup fun _ _ => List.not_mem_nil]
  rw [nodes_inOrder, diagnostics_inOrder, List.flatMap_map, List.flatMap_map, rootOf_document]

/-- A section that is only concerned with some names emits in its place what it
    emits alone, if these names are not bound at first and no other section binds them. -/
theorem exists_emissionsFrom {m : Model} {s : SectionMethod} {ss : List SectionMethod}
    {P : Emission → Prop} (names : List String) (hs : s ∈ ss) (hnodup : (ss.map (·.role)).Nodup)
    (halone : ∀ b : Bindings, (∀ n ∈ names, b.lookup? n = none) → P (s.emission m b))
    (hothers : ∀ t ∈ ss, t.role ≠ s.role → ∀ b : Bindings, ∀ n ∈ names,
      ((t.emission m b).bindings ++ b).lookup? n = b.lookup? n) {b : Bindings}
    (hb : ∀ n ∈ names, b.lookup? n = none) : ∃ e, (s.role, e) ∈ emissionsFrom m b ss ∧ P e := by
  induction ss generalizing b with
  | nil => exact absurd hs List.not_mem_nil
  | cons t ss ih =>
    rw [List.map_cons, List.nodup_cons] at hnodup
    rw [emissionsFrom]
    rcases List.mem_cons.mp hs with rfl | hs
    · exact ⟨_, List.mem_cons_self, halone b hb⟩
    · have hrole : t.role ≠ s.role := by
        intro heq
        exact hnodup.1 (heq ▸ List.mem_map_of_mem hs)
      -- what the section in front binds does not matter here
      have hnext : ∀ n ∈ names, Bindings.lookup? ((t.emission m b).bindings ++ b) n = none := by
        intro n hn
        rw [hothers t List.mem_cons_self hrole b n hn]
        exact hb n hn
      obtain ⟨e, he, hP⟩ := ih hs hnodup.2 (fun u hu => hothers u (List.mem_cons_of_mem _ hu)) hnext
      exact ⟨e, List.mem_cons_of_mem _ he, hP⟩

theorem nodes_emissionsFrom {m : Model} {b : Bindings} {ss : List SectionMethod}
    (hblock : ∀ s ∈ ss, s.HasBlock) :
    ∀ x ∈ emissionsFrom m b ss, ∃ filled : Element, x.2.nodes = [filled.toNode] ∧
      filled.name = x.1.element := by
  induction ss generalizing b with
  | nil => exact List.forall_mem_nil _
  | cons s ss ih =>
    obtain ⟨hfirst, hrest⟩ := List.forall_mem_cons.mp hblock
    rw [emissionsFrom, List.forall_mem_cons]
    exact ⟨hfirst.nodes_emission m b, ih hrest⟩

/-! ## Sections in another order -/

/-- The section methods of a role are the methods with the name of the section. -/
theorem Model.filter_sectionMethods (m : Model) (className : String) (role : PolicySection) :
    (m.sectionMethods className role.kind).filter (·.role == role) =
      (m.methodsNamed className role.method).map fun h => ⟨h.part, role, h.method⟩ := by
  rw [sectionMethods, methodsNamed, List.filter_flatMap, List.map_flatMap]
  apply List.flatMap_congr
  intro part _
  induction part.decl.methods with
  | nil => rfl
  | cons d ds ih =>
    by_cases hd : d.name = role.method
    · have hrole : PolicySection.ofMethod? role.kind role.method = some role := by
        cases role <;> decide
      simpa [hrole, hd] using ih
    · have hother : ∀ r, PolicySection.ofMethod? role.kind d.name = some r → r ≠ role := by
        rintro r hr rfl
        exact hd (PolicySection.ofMethod?_eq_some hr).1.symm
      cases hr : PolicySection.ofMethod? role.kind d.name with
      | none => simpa [hr, hd] using ih
      | some r => simpa [hr, hd, hother r hr] using ih

theorem SectionMethod.AlignedIn.hasBlock {C : Comparison} {a : Alignment} {s s' : SectionMethod}
    (h : s.AlignedIn C a s') (hs : s.HasBlock) : s'.HasBlock := by
  obtain ⟨statements, span, hbody⟩ := hs
  have hrel := h.method.body
  rw [hbody] at hrel
  cases hbody' : s'.method.body with
  | none =>
    rw [hbody'] at hrel
    cases hrel
  | some body =>
    rw [hbody'] at hrel
    cases hrel with
    | some hb =>
      cases hb with
      | block _ _ => exact ⟨_, _, hbody'⟩

section

variable {C : Comparison} {m m' : Model} {className : String} {kind : DocumentKind}

namespace Model.Matched

/-- The section methods of a role correspond. -/
theorem filter_sectionMethods (h : m.Matched C m') (className : String) (role : PolicySection) :
    List.Forall₂ (fun s s' => ∃ a : Alignment, s.AlignedIn C a s')
      ((m.sectionMethods className role.kind).filter (·.role == role))
      ((m'.sectionMethods className role.kind).filter (·.role == role)) := by
  rw [m.filter_sectionMethods, m'.filter_sectionMethods]
  refine List.rel_map ?_ (h.methods className role.method)
  rintro x x' ⟨hname, a, hfile, hmethod⟩
  exact ⟨a, hfile, hname, rfl, hmethod⟩

/-- A section method has a counterpart. -/
theorem exists_section (h : m.Matched C m') {s : SectionMethod}
    (hs : s ∈ m.sectionMethods className kind) :
    ∃ s' ∈ m'.sectionMethods className kind, ∃ a : Alignment, s.AlignedIn C a s' := by
  obtain rfl := (mem_sectionMethods hs).2.2
  obtain ⟨s', hs', hsection⟩ := exists_rel (h.filter_sectionMethods className s.role)
    (List.mem_filter.mpr ⟨hs, beq_self_eq_true _⟩)
  exact ⟨s', (List.mem_filter.mp hs').1, hsection⟩

/-- A section method is the counterpart of one. -/
theorem exists_section' (h : m.Matched C m') {s' : SectionMethod}
    (hs' : s' ∈ m'.sectionMethods className kind) :
    ∃ s ∈ m.sectionMethods className kind, ∃ a : Alignment, s.AlignedIn C a s' := by
  obtain rfl := (mem_sectionMethods hs').2.2
  obtain ⟨s, hs, hsection⟩ := exists_rel (h.filter_sectionMethods className s'.role).flip
    (List.mem_filter.mpr ⟨hs', beq_self_eq_true _⟩)
  exact ⟨s, (List.mem_filter.mp hs).1, hsection⟩

/-- Each section is written as many times in both. -/
theorem roles_perm (h : m.Matched C m') (className : String) (kind : DocumentKind) :
    ((m.sectionMethods className kind).map (·.role)).Perm
      ((m'.sectionMethods className kind).map (·.role)) := by
  rw [List.perm_iff_count]
  intro role
  rw [List.count_eq_length_filter, List.count_eq_length_filter, List.filter_map, List.filter_map,
    List.length_map, List.length_map]
  by_cases hkind : role.kind = kind
  · subst hkind
    exact (h.filter_sectionMethods className role).length_eq
  · -- the section belongs to the other kind of class
    have hnone : ∀ model : Model, (model.sectionMethods className kind).filter
        ((· == role) ∘ (·.role)) = [] := by
      intro model
      rw [List.filter_eq_nil_iff]
      rintro s hs hrole
      exact hkind ((eq_of_beq hrole) ▸ (mem_sectionMethods hs).2.2)
    rw [hnone m, hnone m']

/-- Corresponding sections emit the same after the same bindings. -/
theorem emission_agree (h : m.Matched .problems m') {s s' : SectionMethod} {a : Alignment}
    (hs : s.AlignedIn .problems a s') (b : Bindings) :
    (s.emission m b).Agree .problems (s'.emission m' b) :=
  hs.emission h b fun _ _ => .inl fun _ => trivial

end Model.Matched

/-- Emissions of the same nodes, with the same problems. -/
structure Emission.SameMeaning (e e' : Emission) : Prop where
  nodes : e.nodes = e'.nodes
  diagnostics : List.Forall₂ Diagnostic.SameProblem e.diagnostics e'.diagnostics

/-- An independent section emits the same in both. -/
theorem SectionMethod.Independent.exists_both (h : m.Matched .problems m')
    (honce : ((m.sectionMethods className kind).map (·.role)).Nodup) {s : SectionMethod}
    (hs : s ∈ m.sectionMethods className kind)
    (hindependent : s.Independent m (m.sectionMethods className kind)) :
    ∃ e e', (s.role, e) ∈ m.sectionEmissions className kind ∧
      (s.role, e') ∈ m'.sectionEmissions className kind ∧ e.SameMeaning e' := by
  obtain ⟨s', hs', a, hsection⟩ := h.exists_section hs
  have honce' := (h.roles_perm className kind).nodup_iff.mp honce
  have hfirst := exists_emissionsFrom (P := (· = s.emission m [])) (s.openNames m) hs honce
    (fun b hb => s.emission_alone m hb)
    (fun t ht hne b n hn => t.emission_lookup? m b (hindependent n hn t ht hne)) (b := [])
    (fun _ _ => rfl)
  have hsecond := exists_emissionsFrom (m := m') (P := (s.emission m []).Agree .problems)
    (s.openNames m) hs' honce' (b := []) ?_ ?_ (fun _ _ => rfl)
  · obtain ⟨e, he, rfl⟩ := hfirst
    obtain ⟨e', he', hagree⟩ := hsecond
    exact ⟨_, e', he, hsection.role ▸ he', hagree.nodes.1, hagree.diagnostics⟩
  · intro b hb
    rw [← s.emission_alone m hb]
    exact h.emission_agree hsection b
  · -- the counterparts of the other sections bind no more than these
    intro t' ht' hne b n hn
    obtain ⟨t, ht, a', hother⟩ := h.exists_section' ht'
    rw [← (h.emission_agree hother b).bindings]
    refine t.emission_lookup? m b (hindependent n hn t ht ?_)
    rwa [hother.role, hsection.role]

/-- Lists with the same keys, each standing once, are rearrangements of each other as far as
    the entries of a key are related. -/
theorem exists_rearranged {α β : Type} [DecidableEq α] {R : β → β → Prop} {xs ys : List (α × β)}
    (honce : (xs.map (·.1)).Nodup) (hkeys : (xs.map (·.1)).Perm (ys.map (·.1)))
    (hrel : ∀ y ∈ ys, ∃ x ∈ xs, x.1 = y.1 ∧ R x.2 y.2) :
    ∃ moved, xs.Perm moved ∧ List.Forall₂ (fun x y => x.1 = y.1 ∧ R x.2 y.2) moved ys := by
  obtain ⟨moved, hmoved⟩ : ∃ moved,
      List.Forall₂ (fun x y => x ∈ xs ∧ x.1 = y.1 ∧ R x.2 y.2) moved ys := by
    clear hkeys
    induction ys with
    | nil => exact ⟨[], .nil⟩
    | cons y ys ih =>
      obtain ⟨⟨x, hx⟩, hrest⟩ := List.forall_mem_cons.mp hrel
      obtain ⟨moved, hmoved⟩ := ih hrest
      exact ⟨x :: moved, .cons hx hmoved⟩
  rw [List.forall₂_and_left] at hmoved
  obtain ⟨hsub, hmoved⟩ := hmoved
  have hmovedKeys : moved.map (·.1) = ys.map (·.1) := by
    rw [← List.forall₂_eq_eq_eq]
    exact List.rel_map (fun _ _ hxy => hxy.1) hmoved
  refine ⟨moved, ?_, hmoved⟩
  have honce' : (moved.map (·.1)).Nodup := by
    rw [hmovedKeys]
    exact hkeys.nodup_iff.mp honce
  rw [List.perm_ext_iff_of_nodup honce.of_map honce'.of_map]
  refine fun x => ⟨fun hx => ?_, hsub x⟩
  have hkey : x.1 ∈ moved.map (·.1) := by
    rw [hmovedKeys, ← hkeys.mem_iff]
    exact List.mem_map_of_mem hx
  obtain ⟨z, hz, hzx⟩ := List.mem_map.mp hkey
  rwa [← List.inj_on_of_nodup_map honce (hsub z hz) hx hzx]

end

/-! ## Classes that are spread over files -/

/-- The fields and methods that a file declares, each with its class. -/
def SourceTree.memberNames (t : SourceTree) : List (String × String) :=
  t.classes.flatMap fun c => (c.fields.map (·.name) ++ c.methods.map (·.name)).map (c.name, ·)

/-- No member of a class is declared in two different files. -/
def MembersApart (ts : List SourceTree) : Prop :=
  ∀ t ∈ ts, ∀ t' ∈ ts, t ≠ t' → ∀ x ∈ t.memberNames, x ∉ t'.memberNames

namespace Model

variable {ts ts' : List SourceTree}

/-- What is looked up by its name is found in every order of the files. -/
theorem flatMap_parts_of_perm {α : Type} (hapart : MembersApart ts) (hperm : ts.Perm ts')
    (className name : String) (f : Part → List α)
    (hf : ∀ p, f p ≠ [] → name ∈ p.decl.fields.map (·.name) ++ p.decl.methods.map (·.name)) :
    (partsOf { trees := ts } className).flatMap f =
      (partsOf { trees := ts' } className).flatMap f := by
  unfold partsOf parts
  rw [List.filter_flatMap, List.filter_flatMap, List.flatMap_assoc, List.flatMap_assoc]
  have hdeclares : ∀ t : SourceTree, (t.parts.filter (·.decl.name == className)).flatMap f ≠ [] →
      (className, name) ∈ t.memberNames := by
    intro t hne
    obtain ⟨x, hx⟩ := List.exists_mem_of_ne_nil _ hne
    obtain ⟨p, hp, hfx⟩ := List.mem_flatMap.mp hx
    obtain ⟨hmem, hname⟩ := List.mem_filter.mp hp
    obtain ⟨decl, hdecl, rfl⟩ := List.mem_map.mp hmem
    obtain rfl : decl.name = className := eq_of_beq hname
    have hfound := hf _ (List.ne_nil_of_mem hfx)
    exact List.mem_flatMap.mpr ⟨decl, hdecl, List.mem_map_of_mem hfound⟩
  apply flatMap_eq_of_perm hperm
  intro t ht t' ht' hne hne'
  by_contra hdiffer
  have hother : t ≠ t' := fun heq => hdiffer (heq ▸ rfl)
  exact hapart t ht t' ht' hother _ (hdeclares t hne) (hdeclares t' hne')

/-- Files that share no member may be given in any order. -/
theorem matched_of_perm {C : Comparison} {moved : List SourceTree} (hapart : MembersApart ts)
    (hperm : ts.Perm moved) (haligned : List.Forall₂ (SourceTree.Aligned C) moved ts') :
    Matched C { trees := ts } { trees := ts' } := by
  have hmatched := (aligned_of_trees haligned).matched
  constructor
  · intro className name
    have hfields := flatMap_parts_of_perm hapart hperm className name
      (fun p => (p.decl.fields.find? (·.name == name)).toList) fun p hp => by
        obtain ⟨f, hf⟩ := List.exists_mem_of_ne_nil _ hp
        rw [Option.mem_toList] at hf
        have hname := List.find?_some hf
        exact List.mem_append_left _ (List.mem_map.mpr
          ⟨f, List.mem_of_find?_eq_some hf, eq_of_beq hname⟩)
    have hfound := hmatched.field className name
    have hfirst : ∀ model : Model, model.field? className name =
        ((model.partsOf className).flatMap fun p =>
          (p.decl.fields.find? (·.name == name)).toList).head? := by
      intro model
      rw [List.head?_flatMap]
      simp only [Option.head?_toList]
      rfl
    rw [hfirst, hfields, ← hfirst]
    exact hfound
  · intro className name
    have hmethods := flatMap_parts_of_perm hapart hperm className name
      (fun part => (part.decl.methods.filter (·.name == name)).map fun method =>
        ({ part, method } : Helper)) fun p hp => by
          obtain ⟨x, hx⟩ := List.exists_mem_of_ne_nil _ hp
          obtain ⟨d, hd, -⟩ := List.mem_map.mp hx
          obtain ⟨hd, hname⟩ := List.mem_filter.mp hd
          exact List.mem_append_right _ (List.mem_map.mpr ⟨d, hd, eq_of_beq hname⟩)
    rw [methodsNamed, hmethods]
    exact hmatched.methods className name

end Model

theorem membersApart_pair {t t' : SourceTree} (h : ∀ x ∈ t.memberNames, x ∉ t'.memberNames) :
    MembersApart [t, t'] := by
  intro u hu v hv hne x hx hx'
  rcases List.mem_pair.mp hu with rfl | rfl <;> rcases List.mem_pair.mp hv with rfl | rfl
  · exact hne rfl
  · exact h x hx hx'
  · exact h x hx' hx
  · exact hne rfl

/-! ## A name that crosses sections -/

namespace Halves

/-- Half of a class, with the section `Inbound` behind some blanks. -/
def inbound (gap body : String) : SourceFile where
  name := "a.cs"
  text := "partial class C" ++ gap ++ "\x7bvoid Inbound(I c)\x7b" ++ body ++ "\x7d\x7d"

/-- The other half of the class, with the section `Outbound`. -/
def outbound (gap body : String) : SourceFile where
  name := "b.cs"
  text := "partial class C" ++ gap ++ "\x7bvoid Outbound(I c)\x7b" ++ body ++ "\x7d\x7d"

/-- A statement that binds the name `t`. -/
def bindName : String := "var t=c.CacheLookupValue(new()\x7bKey=\"k\"\x7d);"

/-- A statement that uses the name `t`. -/
def useName : String := "c.SetBody(t);"

/-- The tree of a file that parses. -/
def tree (f : SourceFile) : SourceTree := (SourceTree.parse f).toOption.getD default

/-- The compilation of some files that parse. -/
def model (files : List SourceFile) : Model := { trees := files.map tree }

/-- The marker of the class. -/
def marker : Marker where
  name := "C"
  scope := anyScope
  kind := .document

/-- The text that the section `Outbound` sets. -/
def bodyText (root : Element) : Option String :=
  ((root.element? "outbound").bind (·.element? "set-body")).map (·.text)

theorem parse_eq {f : SourceFile} (h : (SourceTree.parse f).toOption.isSome = true) :
    SourceTree.parse f = .ok (tree f) := by
  unfold tree
  cases hparse : SourceTree.parse f with
  | ok t => rfl
  | error e =>
    rw [hparse] at h
    cases h

/-- Two halves may be given in any order and with other gaps. -/
theorem matched {f g f' g' : SourceFile} (hf : f.SameTokens f') (hg : g.SameTokens g')
    (hparse : ∀ x ∈ [f, g, f', g'], (SourceTree.parse x).toOption.isSome = true)
    (hapart : ∀ x ∈ (tree f).memberNames, x ∉ (tree g).memberNames)
    (hfits : ∀ x ∈ [f, g, f', g'], x.text.utf8ByteSize < UInt32.size) :
    (model [f, g]).Matched .problems (model [g', f']) := by
  have haligned : ∀ {x x' : SourceFile}, x.SameTokens x' → x ∈ [f, g, f', g'] →
      x' ∈ [f, g, f', g'] → (tree x).Aligned .problems (tree x') := by
    intro x x' hsame hx hx'
    have hjointly := SourceTree.parse_jointly
      (hsame.readAlike (C := .problems) (hfits x hx) (hfits x' hx') id)
    rw [parse_eq (hparse x hx), parse_eq (hparse x' hx')] at hjointly
    cases hjointly with
    | ok h => exact h
  exact Model.matched_of_perm (membersApart_pair hapart) (.swap _ _ _)
    (.cons (haligned hg (by simp) (by simp)) (.cons (haligned hf (by simp) (by simp)) .nil))

end Halves

open Halves

end GatewayPolicy
