import GatewayPolicy.Proofs.Document.Indentation
import GatewayPolicy.Proofs.Document.Independence

/-! # Variables are written before they are read

  A local name stands for a variable of the gateway, which an element of the document
  writes. The gateway runs a document from the top, so the element has to stand in front
  of everything that reads the variable.

  - A `Moment` is a step of compiling a section: the names bound so far, the names that
    are looked up, and the slots that are filled. `Model.moments` lists the moments of a
    document, branches of conditionals included.
  - `Covers` says that slots write all variables that are bound, and `Covered` follows
    this through moments.
  - `Emission.Follows` says that moments fill the slots of an emission, in its order, and
    that the variables that are bound in each were written before.
  - `Model.documents_variables` is the result.
-/

namespace GatewayPolicy

/-! ## Slots of emissions -/

namespace Node

theorem filledOfAll_append (parent : String) (ns ms : List Node) :
    filledOfAll parent (ns ++ ms) = filledOfAll parent ns ++ filledOfAll parent ms := by
  induction ns with
  | nil => rfl
  | cons n ns ih => rw [List.cons_append, filledOfAll, filledOfAll, ih, List.append_assoc]

/-- Only a text belongs to the element around it. -/
theorem filledOfAll_parent {ns : List Node} (h : ∀ n ∈ ns, n.isText = false)
    (parent : String) : filledOfAll parent ns = filledOfAll "" ns := by
  induction ns with
  | nil => rfl
  | cons n ns ih =>
    obtain ⟨hn, hns⟩ := List.forall_mem_cons.mp h
    rw [filledOfAll, filledOfAll, ih hns]
    cases n with
    | text t => cases hn
    | element name attributes children => rfl
    | raw markup => rfl

end Node

namespace Emission

/-- The slots that an emission fills, in the order of the document. -/
def filled (e : Emission) : List (Slot × String) := Node.filledOfAll "" e.nodes

theorem filled_followedBy (e f : Emission) : (e.followedBy f).filled = e.filled ++ f.filled :=
  Node.filledOfAll_append "" e.nodes f.nodes

/-- The slots of an element: its own, and those of the nodes in it. -/
theorem filled_within {e : Emission} (h : ∀ n ∈ e.nodes, n.isText = false) {element : Element}
    (hempty : element.children = []) :
    (e.within element).filled =
      element.attributes.map (fun x => (.attributeOf element.name x.name, x.value)) ++
        e.filled := by
  show (element.append e.nodes).toNode.filled "" ++ [] = _
  rw [Element.append, hempty, List.nil_append, Element.toNode, Node.filled,
    Node.filledOfAll_parent h, List.append_nil]
  rfl

/-- An element without attributes has no slots of its own. -/
theorem filled_within_bare {e : Emission} (h : ∀ n ∈ e.nodes, n.isText = false)
    (name : String) : (e.within { name }).filled = e.filled :=
  filled_within h rfl

end Emission

/-- No statement adds a text. -/
theorem emitAll_isText (site : Site) (b : Bindings) (ss : List Stmt) :
    ∀ n ∈ (emitAll site allKinds b ss).nodes, n.isText = false := by
  intro n hn
  exact (Node.unmixed_invariant.emitAll site allKinds b ss n hn).isText_eq

/-- No link of a conditional adds a text. -/
theorem emitChain_isText (site : Site) (b c : Bindings) (condition : Expr) (s : Stmt)
    (rest : Option Stmt) :
    ∀ n ∈ ((emitWhen site allKinds b condition s).followedBy
      (emitElse site allKinds c rest)).nodes, n.isText = false := by
  have hlink := Node.unmixed_invariant.emitWhen site allKinds b condition s
  have hrest := Node.unmixed_invariant.emitElse site allKinds c rest
  intro n hn
  exact (NodeInvariant.followedBy hlink hrest n hn).isText_eq

/-! ## Written variables -/

/-- Whether a slot is one by which an element names the variable that it writes. -/
def writesVariable (v : String) : Slot × String → Bool
  | (.attributeOf _ name, value) =>
    (name == "variable-name" || name == "output-token-variable-name") && value == v
  | (.contentOf _, _) => false
  | (.markup, _) => false

/-- All variables that are bound are written in some slots. -/
def Covers (slots : List (Slot × String)) (b : Bindings) : Prop :=
  ∀ x ∈ b, ∃ p ∈ slots, writesVariable x.2 p = true

section Covers

variable {slots others : List (Slot × String)} {b c : Bindings}

theorem covers_nil (slots : List (Slot × String)) : Covers slots [] := List.forall_mem_nil _

theorem Covers.append (hb : Covers slots b) (hc : Covers slots c) : Covers slots (b ++ c) :=
  List.forall_mem_append.mpr ⟨hb, hc⟩

theorem Covers.mono (h : Covers slots b) (hsub : slots ⊆ others) : Covers others b := by
  intro x hx
  obtain ⟨p, hp, hwrites⟩ := h x hx
  exact ⟨p, hsub hp, hwrites⟩

theorem Covers.of_lookup (h : Covers slots b) {n v : String} (hn : b.lookup? n = some v) :
    ∃ p ∈ slots, writesVariable v p = true := by
  obtain ⟨x, hx, rfl⟩ := Option.map_eq_some_iff.mp hn
  exact h x (List.mem_of_find?_eq_some hx)

end Covers

/-! ## Bound operations -/

/-- What a rule supplies is in every element that the form gives. -/
theorem Form.mem_read_of_supplied {site : Site} {f : Form} {v : Value} {e : Element}
    (h : (f.read site v).run.value = some e) {x : Attribute} (hx : .supplied x ∈ f.rules) :
    x ∈ e.attributes := by
  obtain ⟨-, rfl⟩ := Form.eq_filled h
  have hdraw : .supplied x ∈ f.draws v :=
    List.mem_flatMap.mpr ⟨_, hx, List.mem_singleton_self _⟩
  exact Form.mem_filled.mpr ⟨_, hdraw, rfl⟩

/-- The element of a bound operation writes the variable of the local's name. -/
theorem BoundOperation.run_writes {site : Site} {b : Bindings} {call : Call} {name : String}
    {o : BoundOperation} {e : Element} (h : (o.run site b call name).run.value = some e) :
    ∃ p ∈ e.toNode.filled "", writesVariable name p = true := by
  obtain ⟨f, v, hf, -, hread⟩ := BoundOperation.run_reads h
  obtain ⟨target, hsupplied, htarget⟩ : ∃ target, .supplied ⟨target, name⟩ ∈ f.rules ∧
      (target = "variable-name" ∨ target = "output-token-variable-name") := by
    cases o with
    | managedIdentity =>
      rw [List.mem_singleton.mp hf]
      exact ⟨_, by simp [boundIdentityForm, managedIdentityForm], .inr rfl⟩
    | cachedValue =>
      rw [List.mem_singleton.mp hf]
      exact ⟨_, by simp [cachedValueForm], .inl rfl⟩
  have hmem := Form.mem_read_of_supplied hread hsupplied
  refine ⟨(.attributeOf e.name target, name), ?_, ?_⟩
  · exact List.mem_append_left _ (List.mem_map_of_mem hmem)
  · rcases htarget with rfl | rfl <;> simp [writesVariable]

/-! ## What emissions bind -/

namespace Emission

/-- The nodes of an emission write the variables that it binds. -/
def Accountable (e : Emission) : Prop := Covers e.filled e.bindings

theorem accountable_of_nil {e : Emission} (h : e.bindings = []) : e.Accountable := by
  unfold Accountable
  rw [h]
  exact covers_nil _

theorem accountable_ofReport (d : Diagnostic) : (ofReport d).Accountable := covers_nil _

theorem accountable_ofNode (x : Attempt Node) : (ofNode x).Accountable := covers_nil _

theorem accountable_ofBound {name : String} {x : Attempt Element}
    (hx : ∀ e, x.run.value = some e → ∃ p ∈ e.toNode.filled "", writesVariable name p = true) :
    (ofBound name x).Accountable := by
  unfold ofBound
  split
  · rename_i e he
    obtain ⟨p, hp, hwrites⟩ := hx e he
    intro y hy
    rw [List.mem_singleton.mp hy]
    exact ⟨p, List.mem_append_left _ hp, hwrites⟩
  · exact covers_nil _

theorem Accountable.followedBy {e f : Emission} (he : e.Accountable) (hf : f.Accountable) :
    (e.followedBy f).Accountable := by
  unfold Accountable
  rw [filled_followedBy]
  exact (hf.mono (List.subset_append_right ..)).append (he.mono (List.subset_append_left ..))

theorem Accountable.within {e : Emission} (h : e.Accountable)
    (htext : ∀ n ∈ e.nodes, n.isText = false) {element : Element}
    (hempty : element.children = []) : (e.within element).Accountable := by
  unfold Accountable
  rw [filled_within htext hempty]
  exact Covers.mono h (List.subset_append_right ..)

end Emission

open Emission

theorem emitExpression_accountable (site : Site) (b : Bindings) (e : Expr) :
    (emitExpression site b e).Accountable := by
  unfold emitExpression
  split
  · split
    · exact accountable_ofReport _
    · split
      · exact accountable_ofReport _
      · exact accountable_ofNode _
  · exact accountable_ofReport _

theorem emitDeclaration_accountable (site : Site) (b : Bindings) (name : String) (span : Span)
    (initializer : Option Expr) :
    (emitDeclaration site b name span initializer).Accountable := by
  unfold emitDeclaration
  split
  · exact accountable_ofReport _
  · split
    · exact accountable_ofReport _
    · split
      · exact accountable_ofReport _
      · exact accountable_ofBound fun e he => BoundOperation.run_writes he
  · exact accountable_ofReport _

/-! ## Moments -/

/-- A step of compiling a section. -/
structure Moment where
  /-- The local names that are bound by then. -/
  bindings : Bindings
  /-- The names that are looked up. -/
  names : List String
  /-- The slots that are filled, for any bindings that there could be. -/
  fill : Bindings → List (Slot × String)
  /-- Bindings of other names than those that are looked up do not count. -/
  determined : ∀ b, Bindings.Agree names b bindings → fill b = fill bindings

/-- The slots that are filled in a moment. -/
def Moment.filled (k : Moment) : List (Slot × String) := k.fill k.bindings

namespace Moment

/-- Something that adds nothing by itself. -/
def still (b : Bindings) : Moment where
  bindings := b
  names := []
  fill _ := []
  determined _ _ := rfl

@[simp] theorem filled_still (b : Bindings) : (still b).filled = [] := rfl

/-- An expression that stands as a statement. -/
def expression (site : Site) (b : Bindings) (e : Expr) : Moment where
  bindings := b
  names := e.argumentNames
  fill c := (emitExpression site c e).filled
  determined _ h := congrArg Emission.filled (emitExpression_alike (.refl site) h)

/-- A local declaration. -/
def declaration (site : Site) (b : Bindings) (name : String) (span : Span)
    (initializer : Option Expr) : Moment where
  bindings := b
  names := initializer.elim [] Expr.argumentNames
  fill c := (emitDeclaration site c name span initializer).filled
  determined _ h := congrArg Emission.filled (emitDeclaration_alike (.refl site) name span h)

/-- The condition of a branch. -/
def condition (site : Site) (b : Bindings) (e : Expr) : Moment where
  bindings := b
  names := e.names
  fill c := [(.attributeOf "when" "condition", (extract site c e).value.text?.getD "")]
  determined _ h := by rw [extract_alike (Site.Alike.refl site) h]

end Moment

mutual

/-- The moments of a statement. -/
def moments (site : Site) (b : Bindings) : Stmt → List Moment
  | .block statements _ => momentsInAll site b statements
  | .conditional condition thenBranch elseBranch _ =>
    .still b :: (momentsInWhen site b condition thenBranch ++
      momentsInElse site ((emitWhen site allKinds b condition thenBranch).bindings ++ b) elseBranch)
  | .expression e _ => [.expression site b e]
  | .declaration _ name initializer span => [.declaration site b name span initializer]
  | .other .. | .malformed .. => [.still b]

/-- The moments of a link: its condition, then the statements under it. A link that is
    left out adds nothing. -/
def momentsInWhen (site : Site) (b : Bindings) (condition : Expr) : Stmt → List Moment
  | .block statements _ =>
    match condition with
    | .call .. => .condition site b condition :: momentsInAll site b statements
    | _ => [.still b]
  | _ => [.still b]

/-- The moments of what follows a link. -/
def momentsInElse (site : Site) (b : Bindings) : Option Stmt → List Moment
  | none => [.still b]
  | some (.conditional condition thenBranch elseBranch _) =>
    momentsInWhen site b condition thenBranch ++
      momentsInElse site ((emitWhen site allKinds b condition thenBranch).bindings ++ b) elseBranch
  | some (.block statements _) => momentsInAll site b statements
  | some _ => [.still b]

/-- The moments of statements in order; the last is that of their end. -/
def momentsInAll (site : Site) (b : Bindings) : List Stmt → List Moment
  | [] => [.still b]
  | s :: ss => moments site b s ++ momentsInAll site ((emit site allKinds b s).bindings ++ b) ss

end

/-- The slots that are filled in some moments. -/
def filledIn (ks : List Moment) : List (Slot × String) := ks.flatMap (·.filled)

theorem filledIn_append (ks ls : List Moment) :
    filledIn (ks ++ ls) = filledIn ks ++ filledIn ls := List.flatMap_append

theorem filledIn_cons (k : Moment) (ks : List Moment) :
    filledIn (k :: ks) = k.filled ++ filledIn ks := List.flatMap_cons

theorem filledIn_singleton (k : Moment) : filledIn [k] = k.filled := List.flatMap_singleton ..

theorem filledIn_still (b : Bindings) (ks : List Moment) :
    filledIn (.still b :: ks) = filledIn ks := rfl

/-! ## Bindings in moments -/

/-- In every moment the bound variables are written in the slots that were filled before. -/
def Covered (slots : List (Slot × String)) : List Moment → Prop
  | [] => True
  | k :: ks => Covers slots k.bindings ∧ Covered (slots ++ k.filled) ks

theorem covered_singleton {slots : List (Slot × String)} {k : Moment}
    (h : Covers slots k.bindings) : Covered slots [k] := ⟨h, trivial⟩

theorem covered_append {slots : List (Slot × String)} {ks ls : List Moment} :
    Covered slots (ks ++ ls) ↔ Covered slots ks ∧ Covered (slots ++ filledIn ks) ls := by
  induction ks generalizing slots with
  | nil => simp [Covered, filledIn]
  | cons k ks ih =>
    rw [List.cons_append, Covered, Covered, ih, filledIn_cons, List.append_assoc, and_assoc]

/-- What follows an emission finds its variables written. -/
theorem Covers.after {slots : List (Slot × String)} {b : Bindings} (h : Covers slots b)
    {e : Emission} (he : e.Accountable) : Covers (slots ++ e.filled) (e.bindings ++ b) :=
  (Covers.mono he (List.subset_append_right ..)).append (h.mono (List.subset_append_left ..))

namespace Emission

/-- Moments of an emission that comes after some bindings. -/
structure Follows (b : Bindings) (e : Emission) (ks : List Moment) : Prop where
  /-- They fill the slots of the nodes. -/
  filled : filledIn ks = e.filled
  accountable : e.Accountable
  /-- In each, all that is bound was written before, if the bindings at first were. -/
  covered : ∀ {slots : List (Slot × String)}, Covers slots b → Covered slots ks

variable {b : Bindings} {e f : Emission} {ks ls : List Moment}

theorem Accountable.follows (h : e.Accountable) (k : Moment) (hfilled : k.filled = e.filled) :
    e.Follows k.bindings [k] where
  filled := (filledIn_singleton k).trans hfilled
  accountable := h
  covered := covered_singleton

theorem follows_ofReport (b : Bindings) (d : Diagnostic) : (ofReport d).Follows b [.still b] :=
  (accountable_ofReport d).follows (.still b) rfl

/-- What adds nothing may go without a moment. -/
theorem follows_nil (hnodes : e.nodes = []) (hbindings : e.bindings = []) : e.Follows b [] where
  filled := by
    rw [Emission.filled, hnodes]
    rfl
  accountable := accountable_of_nil hbindings
  covered _ := trivial

theorem Follows.followedBy (he : e.Follows b ks) (hf : f.Follows (e.bindings ++ b) ls) :
    (e.followedBy f).Follows b (ks ++ ls) where
  filled := by rw [filledIn_append, he.filled, hf.filled, filled_followedBy]
  accountable := he.accountable.followedBy hf.accountable
  covered h := by
    rw [covered_append, he.filled]
    exact ⟨he.covered h, hf.covered (h.after he.accountable)⟩

/-- An element without attributes fills no slots. -/
theorem Follows.within (h : e.Follows b ks) (htext : ∀ n ∈ e.nodes, n.isText = false)
    (name : String) : (e.within { name }).Follows b ks where
  filled := h.filled.trans (filled_within_bare htext name).symm
  accountable := h.accountable.within htext rfl
  covered := h.covered

end Emission

mutual

/-- The nodes that a statement adds write the variables that it binds, and its moments
    follow them. -/
theorem emit_follows (site : Site) (b : Bindings) (s : Stmt) :
    (emit site allKinds b s).Follows b (moments site b s) := by
  cases s with
  | malformed fault span => exact follows_ofReport b _
  | other which span => exact follows_ofReport b _
  | expression e span =>
    exact (emitExpression_accountable site b e).follows (.expression site b e) rfl
  | declaration type name initializer span =>
    exact (emitDeclaration_accountable site b name span initializer).follows
      (.declaration site b name span initializer) rfl
  | block statements span => exact emitAll_follows site b statements
  | conditional condition thenBranch elseBranch span =>
    have hchain := (emitWhen_follows site b condition thenBranch).followedBy
      (emitElse_follows site _ elseBranch)
    have hwithin := hchain.within (emitChain_isText site b _ condition thenBranch elseBranch)
      "choose"
    refine ⟨hwithin.filled, hwithin.accountable, fun h => ⟨h, ?_⟩⟩
    rw [Moment.filled_still, List.append_nil]
    exact hwithin.covered h

theorem emitWhen_follows (site : Site) (b : Bindings) (condition : Expr) (s : Stmt) :
    (emitWhen site allKinds b condition s).Follows b (momentsInWhen site b condition s) := by
  cases s with
  | block statements span =>
    cases condition with
    | call target types arguments callSpan =>
      have hbody := emitAll_follows site b statements
      have htext := emitAll_isText site b statements
      rw [emitWhen, momentsInWhen]
      refine ⟨?_, ?_, fun h => ⟨h, hbody.covered (h.mono (List.subset_append_left ..))⟩⟩
      · rw [filledIn_cons, hbody.filled, filled_followedBy, filled_within htext rfl]
        rfl
      · exact (accountable_of_nil rfl).followedBy (hbody.accountable.within htext rfl)
    | _ => exact follows_ofReport b _
  | _ => exact follows_ofReport b _

theorem emitElse_follows (site : Site) (b : Bindings) (s : Option Stmt) :
    (emitElse site allKinds b s).Follows b (momentsInElse site b s) := by
  cases s with
  | none => exact (accountable_of_nil rfl).follows (.still b) rfl
  | some s =>
    cases s with
    | conditional condition thenBranch elseBranch span =>
      rw [emitElse, momentsInElse]
      exact (emitWhen_follows site b condition thenBranch).followedBy
        (emitElse_follows site _ elseBranch)
    | block statements span =>
      rw [emitElse, momentsInElse]
      exact (emitAll_follows site b statements).within (emitAll_isText site b statements) _
    | _ => exact follows_ofReport b _

theorem emitAll_follows (site : Site) (b : Bindings) (ss : List Stmt) :
    (emitAll site allKinds b ss).Follows b (momentsInAll site b ss) := by
  cases ss with
  | nil => exact (accountable_of_nil rfl).follows (.still b) rfl
  | cons s ss =>
    rw [emitAll, momentsInAll]
    exact (emit_follows site b s).followedBy (emitAll_follows site _ ss)

end

/-! ## Documents -/

/-- The moments of a section. -/
def SectionMethod.moments (s : SectionMethod) (m : Model) (b : Bindings) : List Moment :=
  match s.method.body with
  | some (.block statements _) => momentsInAll (s.site m) b statements
  | _ => []

/-- The moments of sections in order; a section that was seen before has none. -/
def momentsOfSections (m : Model) (seen : List PolicySection) (b : Bindings) :
    List SectionMethod → List Moment
  | [] => []
  | s :: ss =>
    if seen.contains s.role then momentsOfSections m (s.role :: seen) b ss
    else s.moments m b ++ momentsOfSections m (s.role :: seen) ((s.emission m b).bindings ++ b) ss

/-- The moments of compiling a class. -/
def Model.moments (m : Model) (className : String) (kind : DocumentKind) : List Moment :=
  momentsOfSections m [] [] (m.sectionMethods className kind)

theorem SectionMethod.emission_follows (s : SectionMethod) (m : Model) (b : Bindings) :
    (s.emission m b).Follows b (s.moments m b) := by
  unfold moments emission
  cases s.method.body with
  | none => exact follows_nil rfl rfl
  | some body =>
    cases body with
    | block statements span =>
      exact (emitAll_follows (s.site m) b statements).within
        (emitAll_isText (s.site m) b statements) _
    | expression e => exact follows_nil rfl rfl

theorem emitSections_follows (m : Model) (document : String) (seen : List PolicySection)
    (b : Bindings) (ss : List SectionMethod) :
    (emitSections m document seen b ss).Follows b (momentsOfSections m seen b ss) := by
  induction ss generalizing seen b with
  | nil => exact follows_nil rfl rfl
  | cons s ss ih =>
    rw [momentsOfSections, emitSections]
    split
    · exact (follows_nil rfl rfl : Emission.Follows b (ofReport _) []).followedBy (ih _ _)
    · exact (s.emission_follows m b).followedBy (ih _ _)

/-- The root of a document has no slots beside those of its sections. -/
theorem rootOf_filled (kind : DocumentKind) {es : List Element}
    (h : kind = .fragment → es.length ≤ 1) :
    (rootOf kind (es.map Element.toNode)).toNode.filled "" =
      Node.filledOfAll "" (es.map Element.toNode) := by
  cases kind with
  | document =>
    have htexts : ∀ n ∈ es.map Element.toNode, n.isText = false := by
      intro n hn
      obtain ⟨e, -, rfl⟩ := List.mem_map.mp hn
      rfl
    rw [rootOf_document]
    exact Node.filledOfAll_parent htexts "policies"
  | fragment =>
    match es, h rfl with
    | [], _ => rfl
    | [e], _ => exact (List.append_nil _).symm

theorem assemble_filled (m : Model) (className : String) (marker : Marker) :
    (assemble m className marker).value.toNode.filled "" =
      (emitSections m marker.name [] [] (m.sectionMethods className marker.kind)).filled := by
  obtain ⟨es, hvisit, hemission⟩ :=
    emitSections_visited m marker.name [] [] (m.sectionMethods className marker.kind)
  obtain ⟨elements, hnodes, roles, hnames, hsub, hnodup, -⟩ := hvisit.elements
  rw [← hemission] at hnodes
  have hlength : marker.kind = .fragment → elements.length ≤ 1 := by
    intro hkind
    -- all sections of a fragment are one and the same
    have hroles : ∀ r ∈ roles, r = .fragment := by
      intro r hr
      obtain ⟨s, hs, rfl⟩ := List.mem_map.mp (hsub.subset hr)
      exact PolicySection.eq_fragment ((Model.mem_sectionMethods hs).2.2.trans hkind)
    have hone := length_le_one_of_nodup hnodup hroles
    have hcount : elements.length = roles.length := by simpa using congrArg List.length hnames
    omega
  rw [Emission.filled, hnodes]
  rw [assemble_eq_emitSections]
  dsimp only
  rw [hnodes]
  exact rootOf_filled marker.kind hlength

/-- A declaration that adds no element binds nothing. -/
theorem Draft.addStatement_declaration (site : Site) (d : Draft) (type name : String)
    (initializer : Option Expr) (span : Span)
    (h : (d.addStatement site allKinds (.declaration type name initializer span)).element =
      d.element) :
    (d.addStatement site allKinds (.declaration type name initializer span)).bindings =
      d.bindings := by
  rw [addStatement_eq_add] at h ⊢
  have hnodes : (emitDeclaration site d.bindings name span initializer).nodes = [] := by
    have hchildren := congrArg Element.children h
    exact List.append_right_eq_self.mp hchildren
  have haccountable := emitDeclaration_accountable site d.bindings name span initializer
  have hbindings : (emitDeclaration site d.bindings name span initializer).bindings = [] := by
    rw [List.eq_nil_iff_forall_not_mem]
    intro x hx
    obtain ⟨p, hp, -⟩ := haccountable x hx
    rw [Emission.filled, hnodes] at hp
    cases hp
  show (emitDeclaration site d.bindings name span initializer).bindings ++ d.bindings = _
  rw [hbindings, List.nil_append]

/-- The moments of compiling a class fill the slots of its document one after the other. In
    each moment, every variable that a local name is bound to was written by an element before;
    so was every variable that is read for a name which is looked up. A declaration that adds no
    element leaves the bindings as they are. -/
theorem Model.documents_variables {m : Model} {d : CompiledDocument} (hd : d ∈ m.documents) :
    d.root.toNode.filled "" = filledIn (m.moments d.className d.marker.kind) ∧
    (∀ before k after, m.moments d.className d.marker.kind = before ++ k :: after →
      (∀ x ∈ k.bindings, ∃ p ∈ filledIn before, writesVariable x.2 p = true) ∧
      ∀ n ∈ k.names, ∀ v, k.bindings.lookup? n = some v →
        (∀ site span, (extract site k.bindings (.name n span)).value =
          .single (variableCode v) span) ∧
        ∃ p ∈ filledIn before, writesVariable v p = true) ∧
    ∀ (site : Site) (draft : Draft) (type name : String) (initializer : Option Expr) (span : Span),
      let next := draft.addStatement site allKinds (.declaration type name initializer span)
      next.element = draft.element → next.bindings = draft.bindings := by
  obtain ⟨className, -, hdocument⟩ := List.mem_filterMap.mp hd
  obtain ⟨x, -, rfl⟩ := Option.map_eq_some_iff.mp hdocument
  refine ⟨?_, ?_, fun site draft => draft.addStatement_declaration site⟩
  · exact (assemble_filled m className x.2.value).trans
      (emitSections_follows m _ [] [] _).filled.symm
  · intro before k after hmoments
    have hcovered : Covered [] (m.moments className x.2.value.kind) :=
      (emitSections_follows m x.2.value.name [] [] _).covered (covers_nil [])
    rw [hmoments, covered_append] at hcovered
    have hbindings : Covers (filledIn before) k.bindings := hcovered.2.1
    refine ⟨hbindings, ?_⟩
    intro n hn v hv
    refine ⟨?_, hbindings.of_lookup hv⟩
    intro site span
    rw [extract, hv]
    rfl

namespace Crossing

/-- The statement
    `var token = context.CacheLookupValue(new CacheLookupValueConfig { Key = "k" });`. -/
def bindToken : Stmt :=
  .declaration "var" "token" (some (.call (.member (.name "context" default) "CacheLookupValue"
    false default) [] [.mk none (.object (some "CacheLookupValueConfig") none (.fields
      [.mk "Key" (.literal ⟨.string, "k", default⟩) default]) default) default] default)) default

/-- The statement `context.SetBody(token);`. -/
def useToken : Stmt :=
  .expression (.call (.member (.name "context" default) "SetBody" false default) []
    [.mk none (.name "token" default) default] default) default

/-- The method `bool H() => 1;`, where the number is the first character of the file. -/
def one : MethodDecl :=
  { (default : MethodDecl) with
    name := "H"
    body := some (.expression (.literal ⟨.number, "1", ⟨0, 1, 1, 1⟩⟩)) }

/-- The statement `if (H()) { var token = ...; }`. -/
def bindInBranch : Stmt :=
  .conditional (.call (.name "H" default) [] [] default) (.block [bindToken] default) none default

/-- The section `void Inbound(IContext context)` that binds a name in a branch and uses it
    behind the conditional. -/
def inbound : MethodDecl :=
  { (default : MethodDecl) with
    name := "Inbound"
    parameters := [{ type := "IContext", name := "context", span := default }]
    body := some (.block [bindInBranch, useToken] default) }

/-- A document with the section. -/
def branchModel : Model where
  trees := [{ file := { name := "a", text := "1" }, classes := [{ (default : ClassDecl) with
    name := "C"
    attributes := [{ name := "Document", arguments := [], span := default }]
    members := [.method inbound, .method one] }] }]

end Crossing

open Crossing

/-- The element in the branch writes the variable that the body reads. -/
theorem Model.documents_variables_branch :
    (branchModel.moments "C" .document).map (·.names) = [[], [], [], [], [], ["token"], []] ∧
    (branchModel.moments "C" .document).map (·.filled) =
      [[], [(.attributeOf "when" "condition", "\x01@(1)")],
       [(.attributeOf "cache-lookup-value" "key", "k"),
        (.attributeOf "cache-lookup-value" "variable-name", "token")],
       [], [], [(.contentOf "set-body", "\x01@((string)context.Variables[\"token\"])")], []] ∧
    ∃ d ∈ branchModel.documents, d.className = "C" ∧ d.marker.kind = .document ∧
      d.root.toNode.filled "" = filledIn (branchModel.moments d.className d.marker.kind) ∧
      (∀ before k after, branchModel.moments d.className d.marker.kind = before ++ k :: after →
        (∀ x ∈ k.bindings, ∃ p ∈ filledIn before, writesVariable x.2 p = true) ∧
        ∀ n ∈ k.names, ∀ v, k.bindings.lookup? n = some v →
          (∀ site span, (extract site k.bindings (.name n span)).value =
            .single (variableCode v) span) ∧
          ∃ p ∈ filledIn before, writesVariable v p = true) ∧
      ∀ (site : Site) (draft : Draft) (type name : String) (initializer : Option Expr)
        (span : Span),
        let next := draft.addStatement site allKinds (.declaration type name initializer span)
        next.element = draft.element → next.bindings = draft.bindings := by
  have hkinds : branchModel.documents.map (fun d => (d.className, d.marker.kind)) =
      [("C", .document)] := by
    decide +kernel
  obtain ⟨d, hdocuments, hkind⟩ := List.map_eq_singleton_iff.mp hkinds
  obtain ⟨hclass, hkind⟩ := Prod.mk.inj hkind
  have hd : d ∈ branchModel.documents := by
    rw [hdocuments]
    exact List.mem_singleton_self d
  refine ⟨?_, ?_, d, hd, hclass, hkind, Model.documents_variables hd⟩
  · decide +kernel
  · decide +kernel

end GatewayPolicy
