import GatewayPolicy.Document.Compile
import GatewayPolicy.Proofs.Lexical.Stretch
import GatewayPolicy.Proofs.Model.Agreement
import GatewayPolicy.Proofs.Policy.Statements
import GatewayPolicy.Proofs.Reading.File

/-! # Compilations that agree

  - `Part.marker_agree` compares the markers of classes.
  - `Model.operationArguments` lists the arguments that all sections give to
    operations. What is claimed of them is all that is claimed of the files.
  - `emitSections_agree` compares the sections of a class, one after the other.
  - `Model.documents_agree` compares whole models: corresponding parts give
    documents that agree (`CompiledDocument.Agree`).
  - `compile_jointly` compares compilations of files that are read alike.
  - `Alignment.itself` compares a text with itself; what agreement says then holds of one
    compilation.
-/

namespace GatewayPolicy

variable {C D : Comparison} {a : Alignment} {m m' : Model}

/-! ## Markers -/

namespace Part

variable {p p' : Part}

theorem agree_report (hfile : p.file.Aligned C a p'.file) (problem : Problem) {s s' : Span}
    (hspan : a.span s s') : Reported.Agree C Eq (p.report problem s) (p'.report problem s') :=
  ⟨rfl, .cons (hfile.report problem hspan) .nil⟩

theorem markerText_agree (h : m.Matched D m') (hfile : p.file.Aligned C a p'.file)
    (hname : p.decl.name = p'.decl.name) {e e' : Expr} (he : e.Aligned a e') :
    Reported.Agree C Eq (p.markerText m e) (p'.markerText m' e') := by
  unfold markerText
  rw [← hname, ← Model.evaluate_eq h _ he]
  split
  · exact Reported.agree_pure rfl
  · refine (agree_report hfile _ he.span_aligned).bind fun _ _ _ => ?_
    exact Reported.agree_pure rfl

theorem markerName_agree (h : m.Matched D m') (hfile : p.file.Aligned C a p'.file)
    (hname : p.decl.name = p'.decl.name) {e e' : Expr} (he : e.Aligned a e') :
    Reported.Agree C Eq (p.markerName m e) (p'.markerName m' e') := by
  refine (markerText_agree h hfile hname he).bind ?_
  rintro (_ | name) _ rfl
  · exact Reported.agree_pure rfl
  · dsimp only
    split
    · exact Reported.agree_pure rfl
    · refine (agree_report hfile _ he.span_aligned).bind fun _ _ _ => ?_
      exact Reported.agree_pure rfl

theorem markerScope_agree (h : m.Matched D m') (hfile : p.file.Aligned C a p'.file)
    (hname : p.decl.name = p'.decl.name) {e e' : Expr} (he : e.Aligned a e') :
    Reported.Agree C Eq (p.markerScope m e) (p'.markerScope m' e') := by
  have hwritten : Reported.Agree C Eq
      (p.markerText m e >>= fun text => pure (text.map Text.lowerCase))
      (p'.markerText m' e' >>= fun text => pure (text.map Text.lowerCase)) := by
    refine (markerText_agree h hfile hname he).bind fun text _ htext => ?_
    exact Reported.agree_pure (congrArg (Option.map Text.lowerCase) htext)
  have hvalue := Model.evaluate_eq h p.decl.name he
  unfold markerScope
  dsimp only
  rw [← hname, ← hvalue]
  cases he with
  | member _ _ _ _ =>
    generalize m.evaluate _ _ = v
    cases v with
    | ok text => exact hwritten
    | error error => exact Reported.agree_pure rfl
  | _ => exact hwritten

/-- The arguments of corresponding attributes give the same name and scope. -/
theorem markerArguments_agree (h : m.Matched D m') (hfile : p.file.Aligned C a p'.file)
    (hname : p.decl.name = p'.decl.name) (name scope : Option String) {xs xs' : List Argument}
    (hxs : List.Forall₂ (Argument.Aligned a) xs xs') :
    Reported.Agree C Eq (p.markerArguments m name scope xs)
      (p'.markerArguments m' name scope xs') := by
  induction hxs generalizing name scope with
  | nil => exact Reported.agree_pure rfl
  | cons head _ ih =>
    cases head with
    | mk n value span =>
      rw [markerArguments, markerArguments]
      dsimp only [Argument.name, Argument.value]
      split
      · refine (markerName_agree h hfile hname value).bind ?_
        rintro given _ rfl
        exact ih given scope
      · refine (markerName_agree h hfile hname value).bind ?_
        rintro given _ rfl
        exact ih given scope
      · refine (markerScope_agree h hfile hname value).bind ?_
        rintro given _ rfl
        exact ih name given
      · exact ih name scope

theorem mark_rel {d d' : ClassDecl} (h : d.Aligned a d') :
    Option.Rel (fun x x' : AttributeUse × DocumentKind => x.1.Aligned a x'.1 ∧ x.2 = x'.2)
      d.mark? d'.mark? := by
  refine findSome?_rel h.attributes fun {x x'} hx => ?_
  have hsimple : x.simpleName = x'.simpleName := by
    rw [AttributeUse.simpleName, AttributeUse.simpleName, hx.name]
  rw [← hsimple]
  cases DocumentKind.ofWord? x.simpleName with
  | none => exact .none
  | some kind => exact .some ⟨hx, rfl⟩

/-- Corresponding parts carry the same marker, or none. -/
theorem marker_agree (h : m.Matched D m') (hp : p.Aligned C p') :
    Reported.Agree C Eq (p.marker m) (p'.marker m') := by
  obtain ⟨a, hfile, hdecl⟩ := hp
  have hmark := mark_rel hdecl
  unfold marker
  revert hmark
  generalize p.decl.mark? = v, p'.decl.mark? = w
  rintro (⟨hattribute, hkind⟩ | _)
  · dsimp only
    rw [← hdecl.name, ← hkind]
    refine (markerArguments_agree h hfile hdecl.name none none hattribute.arguments).bind ?_
    rintro given _ rfl
    exact Reported.agree_pure rfl
  · exact Reported.agree_pure rfl

end Part

/-! ## Sections -/

/-- The arguments that a section gives to operations. -/
def SectionMethod.operationArguments (m : Model) (s : SectionMethod) : List Argument :=
  match s.method.body with
  | some (.block statements _) =>
    ((Stmt.callsOfAll statements).filter fun c => (operationName? (s.site m) c.1).isSome).flatMap
      (·.2)
  | _ => []

/-- The sections of all classes that carry a marker. -/
def Model.sections (m : Model) : List SectionMethod :=
  m.classNames.flatMap fun className =>
    match m.marked? className with
    | some (_, marker) => m.sectionMethods className marker.value.kind
    | none => []

/-- The arguments of all operations of a model. -/
def Model.operationArguments (m : Model) : List Argument :=
  m.sections.flatMap (SectionMethod.operationArguments m)

/-- The arguments of all operations supply texts as claimed. -/
def Model.Supplies (C : Comparison) (m : Model) : Prop :=
  ∀ x ∈ m.operationArguments, x.value.Supplies C

theorem Model.supplies_of_text (h : ∀ t, C.text t) : m.Supplies C :=
  fun _ _ => .inl h

/-- The sections of one class supply texts as claimed. -/
theorem Model.Supplies.sectionMethods (h : m.Supplies C) {className : String}
    (hclass : className ∈ m.classNames) (x : Part × Reported Marker)
    (hx : m.marked? className = some x) :
    ∀ s ∈ m.sectionMethods className x.2.value.kind, ∀ y ∈ s.operationArguments m,
      y.value.Supplies C := by
  intro s hs y hy
  have hsection : s ∈ m.sections := by
    refine List.mem_flatMap.2 ⟨className, hclass, ?_⟩
    rw [hx]
    exact hs
  exact h y (List.mem_flatMap.2 ⟨s, hsection, hy⟩)

theorem SectionMethod.supply {s : SectionMethod}
    (h : ∀ x ∈ s.operationArguments m, x.value.Supplies C) {statements : List Stmt} {span : Span}
    (hbody : s.method.body = some (.block statements span)) :
    Supply C (s.site m) (Stmt.callsOfAll statements) := by
  intro c hc hoperation x hx
  apply h
  unfold SectionMethod.operationArguments
  rw [hbody]
  exact List.mem_flatMap.2 ⟨c, List.mem_filter.2 ⟨hc, hoperation⟩, hx⟩

/-- Section methods that correspond, each in its file. -/
structure SectionMethod.AlignedIn (C : Comparison) (a : Alignment) (s s' : SectionMethod) : Prop
    where
  file : s.part.file.Aligned C a s'.part.file
  className : s.part.decl.name = s'.part.decl.name
  role : s.role = s'.role
  method : s.method.Aligned a s'.method

namespace SectionMethod

variable {s s' : SectionMethod}

/-- Corresponding sections stand at corresponding sites, if constants and calls in their
    classes mean the same. -/
theorem AlignedIn.site_of (hs : s.AlignedIn C a s')
    (hconstant : ∀ {e e' : Expr}, e.Aligned a e' →
      m.evaluate s.part.decl.name e = m'.evaluate s'.part.decl.name e')
    (hcode : ∀ {e e' : Expr}, e.Aligned a e' → ∀ count : Nat,
      (m.resolve s.part.decl.name e count).bind Helper.code? =
        (m'.resolve s'.part.decl.name e' count).bind Helper.code?) :
    (s.site m).Aligned C a (s'.site m') where
  receiver := by
    have hparameter := head?_rel hs.method.parameters
    show s.receiver = s'.receiver
    unfold receiver
    revert hparameter
    generalize s.method.parameters.head? = v, s'.method.parameters.head? = w
    rintro (hp | _)
    · exact hp.name
    · rfl
  constant := hconstant
  code := hcode
  slice := hs.file.token
  named := hs.file.named
  numeral := hs.file.numeral
  report := hs.file.report
  noOperation := hs.file.noOperation
  unresolved := hs.file.unresolved

theorem AlignedIn.site (hs : s.AlignedIn C a s') (h : m.Matched D m') :
    (s.site m).Aligned C a (s'.site m') := by
  apply hs.site_of
  · intro e e' he
    rw [← hs.className]
    exact Model.evaluate_eq h _ he
  · intro e e' he count
    rw [← hs.className]
    exact Model.code_eq h _ he count

theorem AlignedIn.problemAtName (hs : s.AlignedIn C a s') (m m' : Model) (p : Problem) :
    (Emission.ofReport (s.problemAtName m p)).Agree C (.ofReport (s'.problemAtName m' p)) :=
  Emission.agree_ofReport (hs.file.report p hs.method.nameSpan)

/-- Corresponding sections at corresponding sites emit the same. -/
theorem AlignedIn.emission_of_site (hs : s.AlignedIn C a s')
    (hsite : (s.site m).Aligned C a (s'.site m')) (b : Bindings)
    (hd : ∀ x ∈ s.operationArguments m, x.value.Supplies C) :
    (s.emission m b).Agree C (s'.emission m' b) := by
  have hbody := hs.method.body
  have hempty := hs.problemAtName m m' (.emptySection s.role.element)
  have hsupply : ∀ statements span, s.method.body = some (.block statements span) →
      Supply C (s.site m) (Stmt.callsOfAll statements) := fun _ _ => s.supply hd
  unfold SectionMethod.emission
  rw [← hs.role]
  revert hbody hsupply
  generalize s.method.body = v, s'.method.body = w
  rintro (hb | _) hsupply
  · cases hb with
    | block statements braces =>
      refine Emission.Agree.within ?_ (List.forall_mem_nil _) rfl
      exact emitAll_agree hsite allKinds b statements (hsupply _ _ rfl)
    | expression _ => exact hempty
  · exact hempty

theorem AlignedIn.emission (hs : s.AlignedIn C a s') (h : m.Matched D m') (b : Bindings)
    (hd : ∀ x ∈ s.operationArguments m, x.value.Supplies C) :
    (s.emission m b).Agree C (s'.emission m' b) :=
  hs.emission_of_site (hs.site h) b hd

end SectionMethod

theorem Model.sectionMethods_aligned {className : String}
    (hparts : List.Forall₂ (Part.Aligned C) (m.partsOf className) (m'.partsOf className))
    (kind : DocumentKind) :
    List.Forall₂ (fun s s' => ∃ a : Alignment, s.AlignedIn C a s')
      (m.sectionMethods className kind) (m'.sectionMethods className kind) := by
  refine List.rel_flatMap hparts fun p p' hp => ?_
  obtain ⟨a, hfile, hdecl⟩ := hp
  refine List.rel_filterMap (fun d d' hd => ?_) hdecl.methods
  rw [← hd.name]
  cases PolicySection.ofMethod? kind d.name with
  | none => exact .none
  | some role => exact .some ⟨a, hfile, hdecl.name, rfl, hd⟩

theorem emitSections_agree (h : m.Matched D m') (document : String) (seen : List PolicySection)
    (b : Bindings) {ss ss' : List SectionMethod}
    (hss : List.Forall₂ (fun s s' => ∃ a : Alignment, s.AlignedIn C a s') ss ss')
    (hd : ∀ s ∈ ss, ∀ x ∈ s.operationArguments m, x.value.Supplies C) :
    (emitSections m document seen b ss).Agree C (emitSections m' document seen b ss') := by
  induction hss generalizing seen b with
  | nil => exact Emission.agree_empty
  | @cons s s' ss ss' head _ ih =>
    obtain ⟨a, hs⟩ := head
    obtain ⟨hdhead, hdtail⟩ := List.forall_mem_cons.1 hd
    -- a section that was seen before is reported in both, and adds nothing
    let twice := Problem.duplicateSection s.role.element document
    have hfirst : Emission.Agree C
        (if seen.contains s.role then .ofReport (s.problemAtName m twice) else s.emission m b)
        (if seen.contains s.role then .ofReport (s'.problemAtName m' twice)
          else s'.emission m' b) := by
      split
      · exact hs.problemAtName m m' _
      · exact hs.emission h b hdhead
    rw [emitSections, emitSections, ← hs.role, ← hfirst.bindings]
    exact hfirst.followedBy (ih _ _ hdtail)

/-! ## Documents -/

/-- Documents that agree, with corresponding diagnostics. -/
structure CompiledDocument.Agree (C : Comparison) (d d' : CompiledDocument) : Prop where
  marker : d.marker = d'.marker
  className : d.className = d'.className
  source : d.source = d'.source
  root : Same (fun e => e.toNode.Holds C.written) d.root d'.root
  diagnostics : List.Forall₂ C.diagnostic d.diagnostics d'.diagnostics

theorem rootOf_holds {P : String → Prop} (kind : DocumentKind) {ns : List Node}
    (h : ∀ n ∈ ns, n.Holds P) : (rootOf kind ns).toNode.Holds P := by
  cases kind with
  | document => exact ((Element.holds_bare _).append h).toNode
  | fragment =>
    -- the only section is the root, unless there is none
    cases ns with
    | nil => exact (Element.holds_bare _).toNode
    | cons n ns =>
      have hn := h n List.mem_cons_self
      cases n with
      | element name attributes children => exact hn
      | text t => exact (Element.holds_bare _).toNode
      | raw markup => exact (Element.holds_bare _).toNode

theorem assemble_agree (h : m.Matched D m') {className : String}
    (hparts : List.Forall₂ (Part.Aligned C) (m.partsOf className) (m'.partsOf className))
    (marker : Marker)
    (hd : ∀ s ∈ m.sectionMethods className marker.kind, ∀ x ∈ s.operationArguments m,
      x.value.Supplies C) :
    Reported.Agree C (Same fun e => e.toNode.Holds C.written) (assemble m className marker)
      (assemble m' className marker) := by
  have hsections := emitSections_agree h marker.name [] []
    (Model.sectionMethods_aligned hparts marker.kind) hd
  rw [assemble_eq_emitSections, assemble_eq_emitSections]
  exact ⟨⟨congrArg (rootOf marker.kind) hsections.nodes.1,
    rootOf_holds marker.kind hsections.nodes.2⟩, hsections.diagnostics⟩

namespace Model

theorem classNames_eq (h : m.Aligned C m') : m.classNames = m'.classNames := by
  have hnames : m.parts.map (·.decl.name) = m'.parts.map (·.decl.name) := by
    rw [← List.forall₂_eq_eq_eq]
    exact List.rel_map (fun _ _ hp => Part.Aligned.name_eq hp) h
  unfold classNames
  rw [hnames]

theorem marked_rel (h : m.Matched D m') {className : String}
    (hparts : List.Forall₂ (Part.Aligned C) (m.partsOf className) (m'.partsOf className)) :
    Option.Rel (fun x x' => x.1.Aligned C x'.1 ∧ Reported.Agree C Eq x.2 x'.2)
      (m.marked? className) (m'.marked? className) := by
  refine findSome?_rel hparts fun {p p'} hp => ?_
  have hmarker := Part.marker_agree h hp
  have hvalue := hmarker.value
  dsimp only
  rw [← hvalue]
  cases (p.marker m).value with
  | none => exact .none
  | some marker => exact .some ⟨hp, rfl, hmarker.diagnostics⟩

/-- Constants and helper methods may stand anywhere in the two models. What is reported
    comes from the parts of the class itself. -/
theorem document_rel (h : m.Matched D m') (hd : m.Supplies C) {className : String}
    (hparts : List.Forall₂ (Part.Aligned C) (m.partsOf className) (m'.partsOf className))
    (hclass : className ∈ m.classNames) :
    Option.Rel (CompiledDocument.Agree C) (m.document? className) (m'.document? className) := by
  have hmarked := marked_rel h hparts
  have hsections := hd.sectionMethods hclass
  unfold document?
  revert hmarked hsections
  generalize m.marked? className = v, m'.marked? className = w
  rintro (⟨hpart, hmarker⟩ | _) hsections
  · rename_i x x'
    obtain ⟨a, hfile, -⟩ := hpart
    have hroot : Reported.Agree C (Same fun e => e.toNode.Holds C.written)
        (assemble m className x.2.value) (assemble m' className x'.2.value) := by
      rw [← hmarker.value]
      exact assemble_agree h hparts x.2.value (hsections x rfl)
    exact .some ⟨hmarker.value, rfl, hfile.name, hroot.value,
      List.rel_append hmarker.diagnostics hroot.diagnostics⟩
  · exact .none

/-- Corresponding parts are compiled to documents that agree. -/
theorem documents_agree (h : m.Aligned C m') (hd : m.Supplies C) :
    List.Forall₂ (CompiledDocument.Agree C) m.documents m'.documents := by
  unfold documents
  rw [← classNames_eq h]
  refine List.rel_filterMap (R := fun c c' => c ∈ m.classNames ∧ c = c') ?_ ?_
  · rintro className _ ⟨hclass, rfl⟩
    exact document_rel h.matched hd (h.partsOf className) hclass
  · exact List.forall₂_same.2 fun c hc => ⟨hc, rfl⟩

end Model

/-! ## Files -/

/-- Both computations fail with corresponding errors, or both succeed with
    corresponding results. -/
inductive Jointly {ε α : Type} (E : ε → ε → Prop) (R : α → α → Prop) :
    Except ε α → Except ε α → Prop where
  | error {e e' : ε} (h : E e e') : Jointly E R (.error e) (.error e')
  | ok {v v' : α} (h : R v v') : Jointly E R (.ok v) (.ok v')

section Jointly

variable {ε α β : Type} {E : ε → ε → Prop} {R : α → α → Prop} {Q : β → β → Prop}

theorem Jointly.imp {E' : ε → ε → Prop} {R' : α → α → Prop} {x y : Except ε α}
    (h : Jointly E R x y) (hE : ∀ e e', E e e' → E' e e') (hR : ∀ v v', R v v' → R' v v') :
    Jointly E' R' x y := by
  cases h with
  | error h => exact .error (hE _ _ h)
  | ok h => exact .ok (hR _ _ h)

theorem Jointly.bind {x y : Except ε α} {f g : α → Except ε β} (h : Jointly E R x y)
    (hf : ∀ v w, x = .ok v → R v w → Jointly E Q (f v) (g w)) :
    Jointly E Q (x >>= f) (y >>= g) := by
  cases h with
  | error h => exact .error h
  | ok h => exact hf _ _ rfl h

theorem Jointly.mapM {γ : Type} {S : γ → γ → Prop} {f : γ → Except ε α} {xs ys : List γ}
    (h : List.Forall₂ S xs ys) (hf : ∀ x y, S x y → Jointly E R (f x) (f y)) :
    Jointly E (List.Forall₂ R) (xs.mapM f) (ys.mapM f) := by
  induction h with
  | nil => exact .ok .nil
  | cons head _ ih =>
    rw [List.mapM_cons, List.mapM_cons]
    refine (hf _ _ head).bind fun v w _ hvw => ?_
    exact ih.bind fun vs ws _ hvws => .ok (.cons hvw hvws)

/-- A list of computations that succeed gives the results of all of them and no others. -/
theorem mem_of_mapM {f : α → Except ε β} {xs : List α} {ys : List β} (h : xs.mapM f = .ok ys) :
    (∀ x ∈ xs, ∃ y ∈ ys, f x = .ok y) ∧ ∀ y ∈ ys, ∃ x ∈ xs, f x = .ok y := by
  induction xs generalizing ys with
  | nil =>
    cases h
    exact ⟨List.forall_mem_nil _, List.forall_mem_nil _⟩
  | cons x xs ih =>
    rw [List.mapM_cons] at h
    cases hx : f x with
    | error e =>
      rw [hx] at h
      cases h
    | ok y =>
      rw [hx] at h
      cases hxs : xs.mapM f with
      | error e =>
        rw [hxs] at h
        cases h
      | ok zs =>
        rw [hxs] at h
        cases h
        obtain ⟨hleft, hright⟩ := ih hxs
        rw [List.forall_mem_cons, List.forall_mem_cons]
        refine ⟨⟨⟨y, List.mem_cons_self, hx⟩, ?_⟩, ⟨x, List.mem_cons_self, hx⟩, ?_⟩
        · intro x' hx'
          obtain ⟨z, hz, hxz⟩ := hleft x' hx'
          exact ⟨z, List.mem_cons_of_mem _ hz, hxz⟩
        · intro z hz
          obtain ⟨x', hx', hxz⟩ := hright z hz
          exact ⟨x', List.mem_cons_of_mem _ hx', hxz⟩

theorem exists_mapM {f : α → Except ε β} {xs : List α} (h : ∀ x ∈ xs, ∃ y, f x = .ok y) :
    ∃ ys, xs.mapM f = .ok ys := by
  induction xs with
  | nil => exact ⟨[], rfl⟩
  | cons x xs ih =>
    obtain ⟨⟨y, hy⟩, hxs⟩ := List.forall_mem_cons.mp h
    obtain ⟨ys, hys⟩ := ih hxs
    refine ⟨y :: ys, ?_⟩
    rw [List.mapM_cons, hy, hys]
    rfl

end Jointly

/-- Errors with the same cause in files of the same name. -/
structure ParseError.Same (e e' : ParseError) : Prop where
  file : e.file = e'.file
  fault : e.fault = e'.fault

/-- Files that are read alike: their tokens correspond one by one. -/
def SourceFile.ReadAlike (C : Comparison) (f f' : SourceFile) : Prop :=
  ∃ (a : Alignment) (ts ts' : List Token) (stop stop' : Place), f.Aligned C a f' ∧
    scan f.text = .ok (ts, stop) ∧ scan f'.text = .ok (ts', stop') ∧ a.Runs ts ts' ∧
    a.token (.eof (stop.span [])) (.eof (stop'.span []))

/-- Trees that correspond, each of its file. -/
def SourceTree.Aligned (C : Comparison) (t t' : SourceTree) : Prop :=
  ∃ a : Alignment, t.file.Aligned C a t'.file ∧ t.toContents.Aligned a t'.toContents

/-- Cursors at the beginnings of corresponding files that are not empty. -/
theorem Alignment.cursors_start {t t' : Token} {ts ts' : List Token} {s s' : Span}
    (h : a.Runs (t :: ts) (t' :: ts')) (hstop : a.token (.eof s) (.eof s')) :
    a.Cursors (.start (t :: ts) s) (.start (t' :: ts') s') := by
  refine ⟨?_, h, hstop⟩
  cases h with
  | cons head inside _ _ => exact a.span_of head inside

/-- Files whose tokens correspond are read to trees that do. -/
theorem SourceTree.parse_aligned {f f' : SourceFile} (hname : f.name = f'.name)
    {ts ts' : List Token} {stop stop' : Place} (hscan : scan f.text = .ok (ts, stop))
    (hscan' : scan f'.text = .ok (ts', stop')) (hruns : a.Runs ts ts')
    (hstop : a.token (.eof (stop.span [])) (.eof (stop'.span []))) :
    Jointly ParseError.Same
      (fun t t' => t.file = f ∧ t'.file = f' ∧ t.toContents.Aligned a t'.toContents)
      (SourceTree.parse f) (SourceTree.parse f') := by
  unfold SourceTree.parse SourceTree.parseWithin SourceTree.parseBy
  rw [hscan, hscan']
  dsimp only
  -- nothing is read from files without tokens
  cases hruns with
  | nil => exact .ok ⟨rfl, rfl, rfl, .nil⟩
  | cons head inside touch tail =>
    have hcursor := Alignment.cursors_start (.cons head inside touch tail) hstop
    -- both parses start at the first token, with nothing exceeded
    have hnesting : a.Nestings { limit := nestingLimit } { limit := nestingLimit } := ⟨rfl, .none⟩
    have hcontents :=
      Parse.aligned_contents (CodeGrammar.aligned_within nestingLimit) hcursor hnesting
    revert hcontents
    generalize Parse.contents _ _ _ = x, Parse.contents _ _ _ = y
    rintro (⟨hvalue, -, hlimit⟩ | ⟨herror, -⟩)
    · -- a file that was nested too deeply somewhere is refused as a whole
      have hexceeded := hlimit.exceeded
      dsimp only
      revert hexceeded
      generalize Nesting.exceeded _ = v, Nesting.exceeded _ = w
      rintro (_ | _)
      · exact .error ⟨hname, rfl⟩
      · exact .ok ⟨rfl, rfl, hvalue⟩
    · exact .error ⟨hname, congrArg ParseFault.structural herror.fault⟩

theorem SourceTree.parse_jointly {f f' : SourceFile} (h : f.ReadAlike C f') :
    Jointly ParseError.Same (SourceTree.Aligned C) (SourceTree.parse f) (SourceTree.parse f') := by
  obtain ⟨a, ts, ts', stop, stop', hfile, hscan, hscan', hruns, hstop⟩ := h
  have htrees := SourceTree.parse_aligned hfile.name hscan hscan' hruns hstop
  apply htrees.imp (fun _ _ he => he)
  intro t t' ht
  obtain ⟨rfl, rfl, hcontents⟩ := ht
  exact ⟨a, hfile, hcontents⟩

theorem Model.aligned_of_trees {ts ts' : List SourceTree}
    (h : List.Forall₂ (SourceTree.Aligned C) ts ts') :
    Model.Aligned C { trees := ts } { trees := ts' } := by
  refine List.rel_flatMap h fun t t' ht => ?_
  obtain ⟨a, hfile, hcontents⟩ := ht
  exact List.rel_map (fun d d' hd => ⟨a, hfile, hd⟩) hcontents.classes

/-- Files that are read alike are compiled alike. -/
theorem compile_jointly {fs fs' : List SourceFile}
    (h : List.Forall₂ (SourceFile.ReadAlike C) fs fs')
    (hd : ∀ trees, parseAll fs = .ok trees → Model.Supplies C { trees }) :
    Jointly ParseError.Same (List.Forall₂ (CompiledDocument.Agree C)) (compile fs)
      (compile fs') := by
  -- the first file that fails is the same in both, and no file is compiled then
  have htrees := Jointly.mapM h fun _ _ hf => SourceTree.parse_jointly hf
  refine htrees.bind fun ts ts' hts halign => ?_
  exact .ok (Model.documents_agree (Model.aligned_of_trees halign) (hd ts hts))

/-! ## A text and itself -/

/-- Every token of a text corresponds to itself, and so does every place. -/
def Alignment.itself (ts : List Token) : Alignment where
  token t t' := t = t' ∧ t ∈ ts
  place := Eq
  span := Eq
  kind_eq h := congrArg Token.kind h.1
  text_eq h := congrArg Token.text h.1
  place_of h := congrArg Token.span h.1
  span_of h _ := congrArg Token.span h.1
  place_span h := h
  cover h h' := congrArg₂ Span.cover h h'

theorem Alignment.runs_same {a : Alignment} {ts : List Token} (h : ∀ t ∈ ts, a.token t t)
    (hinside : ∀ t ∈ ts, t.isEof = false) : a.Runs ts ts := by
  induction ts with
  | nil => exact .nil
  | cons t ts ih =>
    obtain ⟨ht, hts⟩ := List.forall_mem_cons.mp h
    obtain ⟨hhead, hinside⟩ := List.forall_mem_cons.mp hinside
    apply Runs.cons ht hhead _ (ih hts hinside)
    intro u hu u' hu'
    rw [Option.mem_unique hu hu']

/-- A file agrees with itself wherever it is copied or quoted. -/
theorem SourceFile.aligned_itself {f : SourceFile} (x : LexedText f.text)
    (hC : ∀ d, C.diagnostic d d) : f.Aligned C (.itself x.tokens) f where
  name := rfl
  token h := by rw [h.1]
  code h := by rw [show _ = _ from h]
  block h := by rw [show _ = _ from h.span]
  named := by
    intro name h
    obtain ⟨t, t', ⟨-, ht⟩, hname, rfl⟩ := h
    obtain ⟨i, hi⟩ := List.mem_iff_getElem?.mp ht
    exact x.not_isInline_of_isName hi hname
  numeral := by
    intro value h
    obtain ⟨t, t', ⟨-, ht⟩, hnumber, rfl⟩ := h
    obtain ⟨i, hi⟩ := List.mem_iff_getElem?.mp ht
    exact x.not_isInline_digitsOf hi hnumber
  report p _ _ h := by rw [show _ = _ from h]; exact hC _
  noOperation hr hs := by rw [show _ = _ from hr, show _ = _ from hs]; exact hC _
  unresolved hr hs := by rw [show _ = _ from hr, show _ = _ from hs]; exact hC _

/-- A file that parses can be cut into lexemes. -/
theorem SourceTree.exists_lexedText {f : SourceFile} {t : SourceTree}
    (h : SourceTree.parse f = .ok t) : ∃ x : LexedText f.text, scan f.text =
      .ok (placeLexemes Place.start x.lexemes, x.stop) := by
  cases hscan : scan f.text with
  | ok v =>
    obtain ⟨x, hts, hstop⟩ := LexedText.exists_of_scan hscan
    exact ⟨x, by rw [hts, hstop]⟩
  | error e =>
    rw [parse, parseWithin, parseBy, hscan] at h
    cases h

/-- A file that parses is read as it is itself. -/
theorem SourceFile.readAlike_itself {f : SourceFile} {t : SourceTree}
    (h : SourceTree.parse f = .ok t) (hC : ∀ d, C.diagnostic d d) : f.ReadAlike C f := by
  obtain ⟨x, hscan⟩ := SourceTree.exists_lexedText h
  refine ⟨.itself x.tokens, _, _, _, _, SourceFile.aligned_itself x hC, hscan, hscan, ?_, rfl, ?_⟩
  · refine Alignment.runs_same (fun t ht => ⟨rfl, ?_⟩) fun _ => x.not_eof_of_mem_lexemes
    exact List.mem_append_left _ ht
  · exact List.mem_append_right _ (List.mem_singleton_self _)

/-- The tree of a file corresponds to itself as soon as the tokens of the file do. -/
theorem SourceTree.aligned_same {f : SourceFile} {t : SourceTree}
    (h : SourceTree.parse f = .ok t) : t.file = f ∧
      ∃ x : LexedText f.text, ∀ a : Alignment, (∀ u ∈ x.tokens, a.token u u) →
        t.toContents.Aligned a t.toContents := by
  obtain ⟨x, hscan⟩ := SourceTree.exists_lexedText h
  have htrees : ∀ a : Alignment, (∀ u ∈ x.tokens, a.token u u) →
      t.file = f ∧ t.toContents.Aligned a t.toContents := by
    intro a ha
    obtain ⟨hlexemes, hstop⟩ := List.forall_mem_append.mp ha
    have hruns := Alignment.runs_same hlexemes fun _ => x.not_eof_of_mem_lexemes
    have haligned := SourceTree.parse_aligned rfl hscan hscan hruns
      (hstop _ (List.mem_singleton_self _))
    rw [h] at haligned
    cases haligned with
    | ok ht => exact ⟨ht.1, ht.2.2⟩
  exact ⟨(htrees (.itself x.tokens) fun _ hu => ⟨rfl, hu⟩).1, x, fun a ha => (htrees a ha).2⟩

/-- The tree of a file corresponds to itself, with no other words than those of the
    file. -/
theorem SourceTree.aligned_itself {f : SourceFile} {t : SourceTree}
    (h : SourceTree.parse f = .ok t) : t.file = f ∧
      ∃ x : LexedText f.text, t.toContents.Aligned (.itself x.tokens) t.toContents := by
  obtain ⟨hfile, x, hcontents⟩ := SourceTree.aligned_same h
  exact ⟨hfile, x, hcontents _ fun _ hu => ⟨rfl, hu⟩⟩

end GatewayPolicy
