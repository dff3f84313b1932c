import GatewayPolicy.Policy.Draft

/-! # Conditional chains

  A chain of conditionals becomes one element `choose`. Its links are taken one after
  the other. A block under a call becomes a branch, and so does a block at the end of
  the chain; any other link is refused with a report.

  - `Stmt.links` lists what the links of a statement come to, in order.
  - `Draft.pass` is what one link leaves behind in a draft besides its element: a branch
    what its statements report and bind, a refused link one report.
  - `branchElements` are the elements of some branches, each filled in a fork.
  - `Draft.addStatement_chain` is the result. The children of `choose` are computed from
    the branches alone, so that refused links do not matter to them.
-/

namespace GatewayPolicy

/-! ## Links -/

/-- Statements under a condition, or without one at the end of a chain. -/
structure Branch where
  condition : Option Expr
  statements : List Stmt

/-- What a link of a chain comes to. -/
inductive ChainPart where
  | branch (branch : Branch)
  | refused (problem : Problem) (span : Span)

/-- The branch that a link becomes, if it is not refused. -/
def ChainPart.branch? : ChainPart → Option Branch
  | branch r => some r
  | refused .. => none

/-- A condition and the statement under it: a branch needs a block under a call. -/
def linkPart (condition : Expr) : Stmt → ChainPart
  | .block statements _ =>
    match condition with
    | .call .. => .branch ⟨some condition, statements⟩
    | e => .refused (.noCall e.shape) e.span
  | s => .refused (.branchBody s.kind) s.span

mutual

/-- The links of a chain from a statement on. A block ends the chain as a branch. -/
def Stmt.links : Stmt → List ChainPart
  | .conditional condition thenBranch elseBranch _ =>
    linkPart condition thenBranch :: elseLinks elseBranch
  | .block statements _ => [.branch ⟨none, statements⟩]
  | s => [.refused (.branchBody s.kind) s.span]

/-- The links behind a link. -/
def elseLinks : Option Stmt → List ChainPart
  | none => []
  | some s => s.links

end

/-! ## Branches in forks -/

section Drafts

variable (site : Site) (kinds : List StatementKind)

/-- A branch in a fork of a draft. The text of its condition is taken first, and then the
    element is opened and filled. -/
def Branch.fill (d : Draft) : Branch → Draft
  | ⟨some condition, statements⟩ =>
    let v := extract site d.bindings condition
    let reported : Draft := { d with diagnostics := d.diagnostics ++ v.diagnostics }
    let attributes := [⟨"condition", v.value.text?.getD ""⟩]
    (reported.fork { name := "when", attributes }).addStatements site kinds statements
  | ⟨none, statements⟩ => (d.fork { name := "otherwise" }).addStatements site kinds statements

/-- A draft after a link, its element aside. A fork shares its diagnostics and bindings. -/
def Draft.pass (d : Draft) : ChainPart → Draft
  | .branch r =>
    let filled := r.fill site kinds d
    { d with diagnostics := filled.diagnostics, bindings := filled.bindings }
  | .refused problem span =>
    { d with diagnostics := d.diagnostics ++ [site.diagnostic problem span] }

/-- The elements of some branches, one after the other. -/
def branchElements : Draft → List Branch → List Element
  | _, [] => []
  | d, r :: rs => (r.fill site kinds d).element :: branchElements (d.pass site kinds (.branch r)) rs

end Drafts

/-! ## Emissions of links -/

/-- A draft after an emission, its element aside. -/
def Draft.note (d : Draft) (e : Emission) : Draft :=
  { d with diagnostics := d.diagnostics ++ e.diagnostics, bindings := e.bindings ++ d.bindings }

theorem Draft.note_followedBy (d : Draft) (e f : Emission) :
    d.note (e.followedBy f) = (d.note e).note f := by
  simp [note, Emission.followedBy]

section Links

variable {site : Site} {kinds : List StatementKind} {d : Draft}

/-- Filling a fork of a draft adds the emission of the statements to the element. -/
theorem fork_addStatements (child : Element) (ss : List Stmt) :
    (d.fork child).addStatements site kinds ss =
      { (d.note (emitAll site kinds d.bindings ss)) with
        element := child.append (emitAll site kinds d.bindings ss).nodes
        enclosing := d.element :: d.enclosing } := by
  rw [Draft.addStatements_eq_add]
  rfl

/-- A branch under a condition is a `when` with the text of the condition. -/
theorem fill_when {r : Branch} {c : Expr} (hc : c ∈ r.condition) {text : String}
    (htext : (extract site d.bindings c).value.text? = some text) :
    (r.fill site kinds d).element.name = "when" ∧
      (r.fill site kinds d).element.attributes = [⟨"condition", text⟩] := by
  obtain ⟨condition, statements⟩ := r
  obtain rfl : condition = some c := hc
  simp [Branch.fill, fork_addStatements, Element.append, htext]

/-- A branch without a condition is an `otherwise`. -/
theorem fill_otherwise {r : Branch} (hnone : r.condition = none) :
    (r.fill site kinds d).element.name = "otherwise" ∧
      (r.fill site kinds d).element.attributes = [] := by
  obtain ⟨condition, statements⟩ := r
  obtain rfl : condition = none := hnone
  simp [Branch.fill, fork_addStatements, Element.append]

/-- The elements of branches depend on nothing but what is bound. -/
theorem branchElements_congr {d' : Draft} (h : d.bindings = d'.bindings) (rs : List Branch) :
    branchElements site kinds d rs = branchElements site kinds d' rs := by
  induction rs generalizing d d' with
  | nil => rfl
  | cons r rs ih =>
    have hfill : (r.fill site kinds d).element = (r.fill site kinds d').element ∧
        (r.fill site kinds d).bindings = (r.fill site kinds d').bindings := by
      obtain ⟨condition, statements⟩ := r
      cases condition <;> simp [Branch.fill, fork_addStatements, Draft.note, h]
    have hrest : branchElements site kinds (d.pass site kinds (.branch r)) rs =
        branchElements site kinds (d'.pass site kinds (.branch r)) rs := ih hfill.2
    rw [branchElements, branchElements, hfill.1, hrest]

/-- An emission is that of some links: it adds the elements of their branches, and leaves
    behind what they leave behind. -/
structure Emission.IsOf (site : Site) (kinds : List StatementKind) (d : Draft)
    (links : List ChainPart) (e : Emission) : Prop where
  pass : links.foldl (Draft.pass site kinds) d = d.note e
  nodes : e.nodes =
    (branchElements site kinds d (links.filterMap ChainPart.branch?)).map Element.toNode

theorem isOf_nil : Emission.IsOf site kinds d [] {} where
  pass := by simp [Draft.note]
  nodes := rfl

/-- A link in front of others. -/
theorem isOf_cons {link : ChainPart} {links : List ChainPart} {e f : Emission}
    (he : e.IsOf site kinds d [link]) (hf : f.IsOf site kinds (d.note e) links) :
    (e.followedBy f).IsOf site kinds d (link :: links) := by
  have hpass : d.pass site kinds link = d.note e := he.pass
  constructor
  · rw [List.foldl_cons, hpass, hf.pass, Draft.note_followedBy]
  · have hnodes : (e.followedBy f).nodes = e.nodes ++ f.nodes := rfl
    rw [hnodes, he.nodes, hf.nodes, ← hpass]
    cases link with
    | branch r => rfl
    | refused problem span =>
      -- a report binds nothing, so the branches behind it are the same without it
      have same : branchElements site kinds (d.pass site kinds (.refused problem span))
          (links.filterMap ChainPart.branch?) =
          branchElements site kinds d (links.filterMap ChainPart.branch?) :=
        branchElements_congr (by rfl) _
      rw [same]
      rfl

theorem isOf_report (problem : Problem) (span : Span) :
    (Emission.ofReport (site.diagnostic problem span)).IsOf site kinds d
      [.refused problem span] where
  pass := by simp [Draft.pass, Draft.note, Emission.ofReport]
  nodes := rfl

theorem isOf_when (condition : Expr) (statements : List Stmt) :
    let v := extract site d.bindings condition
    (Emission.followedBy { diagnostics := v.diagnostics }
      ((emitAll site kinds d.bindings statements).within (whenElement v.value))).IsOf site kinds d
        [.branch ⟨some condition, statements⟩] where
  pass := by
    simp [Draft.pass, Branch.fill, fork_addStatements, Draft.note, Emission.followedBy,
      Emission.within]
  nodes := by
    simp [ChainPart.branch?, branchElements, Branch.fill, fork_addStatements,
      Emission.followedBy, Emission.within, whenElement, Element.addAttribute]

theorem isOf_otherwise (statements : List Stmt) :
    ((emitAll site kinds d.bindings statements).within { name := "otherwise" }).IsOf site kinds d
      [.branch ⟨none, statements⟩] where
  pass := by simp [Draft.pass, Branch.fill, fork_addStatements, Draft.note, Emission.within]
  nodes := by
    simp [ChainPart.branch?, branchElements, Branch.fill, fork_addStatements, Emission.within]

/-- A condition with a statement under it emits what its link says. -/
theorem isOf_emitWhen (condition : Expr) (s : Stmt) :
    (emitWhen site kinds d.bindings condition s).IsOf site kinds d [linkPart condition s] := by
  cases s with
  | block statements span =>
    cases condition with
    | call => exact isOf_when _ statements
    | _ => exact isOf_report _ _
  | _ => exact isOf_report _ _

/-- What follows a link emits what the rest of the chain says. -/
theorem isOf_emitElse (d : Draft) (rest : Option Stmt) :
    (emitElse site kinds d.bindings rest).IsOf site kinds d (elseLinks rest) := by
  match rest with
  | none => exact isOf_nil
  | some (.conditional ..) => exact isOf_cons (isOf_emitWhen _ _) (isOf_emitElse _ _)
  | some (.block statements _) => exact isOf_otherwise statements
  | some (.expression ..) | some (.declaration ..) | some (.other ..) | some (.malformed ..) =>
    exact isOf_report _ _

/-- A refused link leaves one report behind. -/
theorem pass_of_refused {link : ChainPart} (h : link.branch? = none) :
    ∃ report, ∀ e : Draft,
      e.pass site kinds link = { e with diagnostics := e.diagnostics ++ [report] } := by
  cases link with
  | branch r => simp [ChainPart.branch?] at h
  | refused problem span => exact ⟨site.diagnostic problem span, fun _ => rfl⟩

end Links

/-! ## Conditions -/

/-- The condition of a branch is a call. -/
def ChainPart.OnCall (link : ChainPart) : Prop :=
  ∀ r ∈ link.branch?, ∀ c ∈ r.condition, ∃ target types arguments span,
    c = .call target types arguments span

theorem onCall_linkPart (condition : Expr) (s : Stmt) : (linkPart condition s).OnCall := by
  intro r hr c hc
  cases s with
  | block statements span =>
    cases condition with
    | call target types arguments span =>
      obtain rfl := Option.some.inj hr
      exact ⟨target, types, arguments, span, (Option.some.inj hc).symm⟩
    | _ => cases hr
  | _ => cases hr

theorem onCall_elseLinks (rest : Option Stmt) : ∀ link ∈ elseLinks rest, link.OnCall := by
  match rest with
  | none => exact fun _ h => nomatch h
  | some (.conditional ..) =>
    exact List.forall_mem_cons.mpr ⟨onCall_linkPart _ _, onCall_elseLinks _⟩
  | some (.block statements _) =>
    refine List.forall_mem_singleton.mpr fun r hr c hc => ?_
    obtain rfl := Option.some.inj hr
    cases hc
  | some (.expression ..) | some (.declaration ..) | some (.other ..) | some (.malformed ..) =>
    exact List.forall_mem_singleton.mpr fun r hr => nomatch hr

/-- The value of a call is a text, be it code or, after a report, the empty one. -/
theorem text?_extract_call (site : Site) (b : Bindings) (target : Expr) (types : List String)
    (arguments : List Argument) (span : Span) :
    ∃ text, (extract site b (.call target types arguments span)).value.text? = some text := by
  rw [extract, extractCall]
  split
  · exact ⟨_, rfl⟩
  · exact ⟨_, rfl⟩

/-! ## The element of a chain -/

/-- A chain adds one element `choose`, and nothing else to the element that is filled. Its
    children are the elements of the branches in order, each compiled in a fork; what is
    reported and bound is what the links leave behind one after the other. A refused link
    leaves one report behind and nothing else. The element of a branch is a `when` with the
    text of the condition, which there always is, or an `otherwise` at the end. -/
theorem Draft.addStatement_chain (site : Site) (kinds : List StatementKind) (d : Draft)
    (condition : Expr) (thenBranch : Stmt) (elseBranch : Option Stmt) (span : Span)
    (known : kinds.contains .conditional = true) :
    let s := Stmt.conditional condition thenBranch elseBranch span
    d.addStatement site kinds s =
        { s.links.foldl (Draft.pass site kinds) d with
          element := d.element.addElement
            { name := "choose"
              children := (branchElements site kinds d
                (s.links.filterMap ChainPart.branch?)).map Element.toNode } } ∧
      (∀ link ∈ s.links, link.branch? = none →
        ∃ report, ∀ e : Draft,
          e.pass site kinds link = { e with diagnostics := e.diagnostics ++ [report] }) ∧
      (∀ r ∈ s.links.filterMap ChainPart.branch?, ∀ e : Draft,
        let filled := (r.fill site kinds e).element
        (∀ c ∈ r.condition, ∃ text, (extract site e.bindings c).value.text? = some text ∧
          filled.name = "when" ∧ filled.attributes = [⟨"condition", text⟩]) ∧
        (r.condition = none → filled.name = "otherwise" ∧ filled.attributes = [])) := by
  intro s
  have of : (emitWhen site kinds d.bindings condition thenBranch).IsOf site kinds d _ :=
    isOf_emitWhen _ _
  have whole := isOf_cons of (isOf_emitElse _ elseBranch)
  refine ⟨?_, fun link _ => pass_of_refused, ?_⟩
  · have hlinks : s.links = linkPart condition thenBranch :: elseLinks elseBranch := rfl
    rw [hlinks, whole.pass, ← whole.nodes]
    rw [addStatement_eq_add]
    simp only [s, emit, known, if_true]
    rfl
  · intro r hr e
    obtain ⟨link, hlink, hbranch⟩ := List.mem_filterMap.mp hr
    have onCall : ∀ link ∈ s.links, link.OnCall :=
      List.forall_mem_cons.mpr ⟨onCall_linkPart _ _, onCall_elseLinks _⟩
    refine ⟨fun c hc => ?_, fun hnone => ?_⟩
    · obtain ⟨target, types, arguments, callSpan, rfl⟩ := onCall link hlink r hbranch c hc
      obtain ⟨text, htext⟩ := text?_extract_call site e.bindings target types arguments callSpan
      exact ⟨text, htext, fill_when hc htext⟩
    · exact fill_otherwise hnone

namespace MixedChain

/-- The condition `Allowed(context)`. -/
def allowed : Expr :=
  .call (.name "Allowed" default) [] [.mk none (.name "context" default) default] default

/-- The statement `context.Base();`. -/
def base : Stmt :=
  .expression (.call (.member (.name "context" default) "Base" false default) [] [] default) default

/-- The chain `else if (flag) { context.Base(); } else if (Allowed(context)) context.Base();
    else { context.Base(); }`, whose first two links are refused. -/
def rest : Stmt :=
  .conditional (.name "flag" default) (.block [base] default)
    (some (.conditional allowed base (some (.block [base] default)) default)) default

/-- The class `class C { bool Allowed(IContext c) => c.Ok; }`, of whose file only the body of
    the method is kept. -/
def part : Part where
  file := { name := "a.cs", text := "c.Ok" }
  decl := { (default : ClassDecl) with
    name := "C"
    members := [.method { (default : MethodDecl) with
      name := "Allowed"
      parameters := [{ type := "IContext", name := "c", span := default }]
      body := some (.expression (.member (.name "c" default) "Ok" false ⟨0, 4, 1, 1⟩)) }] }

/-- Code of a section of the class, with the parameter `context`. -/
def site : Site where
  model := { trees := [{ file := part.file, classes := [part.decl] }] }
  part := part
  receiver := "context"

theorem extract_allowed (b : Bindings) :
    extract site b allowed = ⟨.single (inlineExpression "c.Ok") default, []⟩ := by
  have hcode : (site.model.resolve site.className (.name "Allowed" default) 1).bind Helper.code? =
      some (inlineExpression "c.Ok") := by decide +kernel
  rw [allowed, extract, extractCall, List.length_singleton, hcode]
  rfl

end MixedChain

/-- Two refused links between two branches: the element has two children, and there are two
    reports. -/
theorem Draft.addStatement_chain_mixed :
    let s := Stmt.conditional MixedChain.allowed (.block [MixedChain.base] default)
      (some MixedChain.rest) default
    let d := Draft.addStatement MixedChain.site allKinds { element := { name := "inbound" } } s
    allKinds.contains .conditional = true ∧
      s.links.map (·.branch?.isSome) = [true, false, false, true] ∧
      d.element.children =
        [.element "choose" [] [
          .element "when" [⟨"condition", inlineExpression "c.Ok"⟩] [.element "base" [] []],
          .element "otherwise" [] [.element "base" [] []]]] ∧
      d.diagnostics.length = 2 := by
  intro s d
  have h : d = _ := (Draft.addStatement_chain MixedChain.site allKinds
    { element := { name := "inbound" } } MixedChain.allowed (.block [MixedChain.base] default)
    (some MixedChain.rest) default rfl).1
  have hlinks : s.links.filterMap ChainPart.branch? =
      [⟨some MixedChain.allowed, [MixedChain.base]⟩, ⟨none, [MixedChain.base]⟩] := rfl
  refine ⟨rfl, rfl, ?_, ?_⟩
  · rw [h, hlinks]
    simp only [branchElements, Branch.fill, MixedChain.extract_allowed]
    rfl
  · rw [h]
    simp only [Stmt.links, MixedChain.rest]
    rfl

end GatewayPolicy
