import GatewayPolicy.Policy.Emission

/-! # Sections under construction

  A draft is an element that is being filled, with the diagnostics and bindings
  of the whole document. Statements are run on it one after the other: they
  report problems, bind names, add nodes to the element, and open child elements
  that the statements of a branch fill. The diagnostics and bindings are shared
  by all open elements.

  - `report`, `bind`, `addNode`, `fork` and `adopt` are the steps.
  - `addStatement` runs a statement, `addStatements` a list.
  - `addStatement_eq_add`: running a statement adds its emission.
-/

namespace GatewayPolicy

/-- Open elements and what goes with them. -/
structure Draft where
  /-- The element that is being filled. -/
  element : Element
  /-- The elements around it, the innermost first. -/
  enclosing : List Element := []
  diagnostics : List Diagnostic := []
  bindings : Bindings := []
  deriving Inhabited

namespace Draft

/-! ## Steps -/

/-- Reports a problem. -/
def report (d : Draft) (x : Diagnostic) : Draft := { d with diagnostics := d.diagnostics ++ [x] }

/-- Reports problems, in order. -/
def reportAll (d : Draft) (xs : List Diagnostic) : Draft := xs.foldl report d

/-- Adds a node to the element. -/
def addNode (d : Draft) (n : Node) : Draft := { d with element := d.element.append [n] }

/-- Binds a local name to a variable. -/
def bind (d : Draft) (name var : String) : Draft := { d with bindings := (name, var) :: d.bindings }

/-- Opens a child element. -/
def fork (d : Draft) (child : Element) : Draft :=
  { d with element := child, enclosing := d.element :: d.enclosing }

/-- Adds the element of a draft that was opened inside this one, and takes over what the
    two share. -/
def adopt (d filled : Draft) : Draft :=
  { filled with element := d.element.addElement filled.element, enclosing := d.enclosing }

/-- Closes the element and adds it to the one around it. The outermost element
    cannot be closed. -/
def join? (d : Draft) : Option Draft :=
  match d.enclosing with
  | [] => none
  | outer :: enclosing => some { d with element := outer.addElement d.element, enclosing }

/-- How many elements are open. -/
def depth (d : Draft) : Nat := d.enclosing.length + 1

/-! ## Calls -/

/-- Takes over what an attempt reports, and the node that it gives. -/
def perform (d : Draft) (x : Attempt Node) : Draft :=
  match x.run.value with
  | some node => (d.reportAll x.run.diagnostics).addNode node
  | none => d.reportAll x.run.diagnostics

/-- Takes over what an attempt reports, and the element that it gives. The element writes a
    variable, to which a local of the same name is bound. -/
def performBound (d : Draft) (name : String) (x : Attempt Element) : Draft :=
  match x.run.value with
  | some e => ((d.reportAll x.run.diagnostics).addNode e.toNode).bind name name
  | none => d.reportAll x.run.diagnostics

/-- Reports an expression that should have been a call. -/
def reportNoCall (site : Site) (d : Draft) (e : Expr) : Draft :=
  d.report (site.diagnostic (.noCall e.shape) e.span)

/-- Reports a call of something that is no operation. -/
def reportNoOperation (site : Site) (d : Draft) (target : Expr) (span : Span) : Draft :=
  d.report (site.diagnostic (.noOperation (site.slice target.span)) span)

/-- Runs an expression that stands as a statement. -/
def addExpression (site : Site) (d : Draft) : Expr → Draft
  | .call target _ arguments span =>
    match operationName? site target with
    | none => d.reportNoOperation site target span
    | some method =>
      match Operation.named? method with
      | none => d.reportNoOperation site target span
      | some operation => d.perform (operation.run site d.bindings { method, arguments, span })
  | e => d.reportNoCall site e

/-- Runs a local declaration. -/
def addDeclaration (site : Site) (d : Draft) (name : String) (span : Span) : Option Expr → Draft
  | none => d.report (site.diagnostic (.uninitialized name) span)
  | some (.call target _ arguments callSpan) =>
    match operationName? site target with
    | none => d.reportNoOperation site target callSpan
    | some method =>
      match BoundOperation.named? method with
      | none => d.reportNoOperation site target callSpan
      | some operation =>
        d.performBound name
          (operation.run site d.bindings { method, arguments, span := callSpan } name)
  | some e => d.reportNoCall site e

/-! ## Statements -/

/-- Reports a statement that nothing is made of. -/
def reportUnsupported (site : Site) (d : Draft) (s : Stmt) : Draft :=
  d.report (site.diagnostic (.statement s.kind) s.span)

/-- Reports a branch that is no block. -/
def reportBranchBody (site : Site) (d : Draft) (s : Stmt) : Draft :=
  d.report (site.diagnostic (.branchBody s.kind) s.span)

mutual

/-- Runs a statement. Kinds that are not listed are reported. -/
def addStatement (site : Site) (kinds : List StatementKind) (d : Draft) : Stmt → Draft
  | .malformed fault span => d.report (site.diagnostic (.malformed fault) span)
  | .other which span => d.reportUnsupported site (.other which span)
  | .expression e span =>
    if kinds.contains .expression then d.addExpression site e
    else d.reportUnsupported site (.expression e span)
  | .declaration type name initializer span =>
    if kinds.contains .declaration then d.addDeclaration site name span initializer
    else d.reportUnsupported site (.declaration type name initializer span)
  | .block statements span =>
    if kinds.contains .block then d.addStatements site kinds statements
    else d.reportUnsupported site (.block statements span)
  | .conditional condition thenBranch elseBranch span =>
    if kinds.contains .conditional then
      let choose := d.fork { name := "choose" }
      d.adopt ((choose.addLink site kinds condition thenBranch).addElse site kinds elseBranch)
    else d.reportUnsupported site (.conditional condition thenBranch elseBranch span)

/-- Runs a link of a conditional chain: its condition and the statement under it. -/
def addLink (site : Site) (kinds : List StatementKind) (d : Draft) (condition : Expr) :
    Stmt → Draft
  | .block statements _ =>
    match condition with
    | .call .. =>
      let v := extract site d.bindings condition
      let reported := d.reportAll v.diagnostics
      reported.adopt ((reported.fork (whenElement v.value)).addStatements site kinds statements)
    | e => d.reportNoCall site e
  | s => d.reportBranchBody site s

/-- Runs what follows a link. -/
def addElse (site : Site) (kinds : List StatementKind) (d : Draft) : Option Stmt → Draft
  | none => d
  | some (.conditional condition thenBranch elseBranch _) =>
    (d.addLink site kinds condition thenBranch).addElse site kinds elseBranch
  | some (.block statements _) =>
    d.adopt ((d.fork { name := "otherwise" }).addStatements site kinds statements)
  | some s => d.reportBranchBody site s

/-- Runs statements, in order. -/
def addStatements (site : Site) (kinds : List StatementKind) (d : Draft) : List Stmt → Draft
  | [] => d
  | s :: ss => (d.addStatement site kinds s).addStatements site kinds ss

end

/-! ## Emissions -/

/-- Adds an emission. -/
def add (d : Draft) (e : Emission) : Draft :=
  { d with
    element := d.element.append e.nodes
    diagnostics := d.diagnostics ++ e.diagnostics
    bindings := e.bindings ++ d.bindings }

@[simp] theorem add_empty (d : Draft) : d.add {} = d := by
  simp [add, Element.append]

theorem add_followedBy (d : Draft) (e f : Emission) :
    d.add (e.followedBy f) = (d.add e).add f := by
  simp [add, Emission.followedBy, Element.append]

theorem report_eq_add (d : Draft) (x : Diagnostic) : d.report x = d.add (.ofReport x) := by
  simp [report, add, Emission.ofReport, Element.append]

theorem reportAll_eq_add (d : Draft) (xs : List Diagnostic) :
    d.reportAll xs = d.add { diagnostics := xs } := by
  induction xs generalizing d with
  | nil => rw [add_empty]; rfl
  | cons x xs ih =>
    show (d.report x).reportAll xs = _
    rw [ih, report_eq_add, ← add_followedBy]
    rfl

theorem perform_eq_add (d : Draft) (x : Attempt Node) : d.perform x = d.add (.ofNode x) := by
  unfold perform Emission.ofNode
  cases x.run.value with
  | none => rw [reportAll_eq_add]; rfl
  | some node => simp [reportAll_eq_add, addNode, add, Element.append]

theorem performBound_eq_add (d : Draft) (name : String) (x : Attempt Element) :
    d.performBound name x = d.add (.ofBound name x) := by
  unfold performBound Emission.ofBound
  cases x.run.value with
  | none => rw [reportAll_eq_add]
  | some e => simp [reportAll_eq_add, addNode, bind, add, Element.append]

/-- Opening a child, adding to it and adding it adds the child to the draft as one node. -/
theorem adopt_add_fork (d : Draft) (child : Element) (e : Emission) :
    d.adopt ((d.fork child).add e) = d.add (e.within child) := rfl

theorem addExpression_eq_add (site : Site) (d : Draft) (e : Expr) :
    d.addExpression site e = d.add (emitExpression site d.bindings e) := by
  cases e with
  | call target types arguments span =>
    unfold addExpression emitExpression
    dsimp only
    cases operationName? site target with
    | none => exact d.report_eq_add _
    | some method =>
      dsimp only
      cases Operation.named? method with
      | none => exact d.report_eq_add _
      | some operation => exact d.perform_eq_add _
  | _ => exact d.report_eq_add _

theorem addDeclaration_eq_add (site : Site) (d : Draft) (name : String) (span : Span)
    (initializer : Option Expr) : d.addDeclaration site name span initializer =
      d.add (emitDeclaration site d.bindings name span initializer) := by
  cases initializer with
  | none => exact d.report_eq_add _
  | some e =>
    cases e with
    | call target types arguments callSpan =>
      unfold addDeclaration emitDeclaration
      dsimp only
      cases operationName? site target with
      | none => exact d.report_eq_add _
      | some method =>
        dsimp only
        cases BoundOperation.named? method with
        | none => exact d.report_eq_add _
        | some operation => exact d.performBound_eq_add _ _
    | _ => exact d.report_eq_add _

mutual

/-- Running a statement adds its emission. -/
theorem addStatement_eq_add (site : Site) (kinds : List StatementKind) (d : Draft) (s : Stmt) :
    d.addStatement site kinds s = d.add (emit site kinds d.bindings s) := by
  cases s with
  | malformed fault span | other which span =>
    rw [addStatement, emit]
    exact d.report_eq_add _
  | expression e span =>
    rw [addStatement, emit]
    split
    · exact d.addExpression_eq_add site e
    · exact d.report_eq_add _
  | declaration type name initializer span =>
    rw [addStatement, emit]
    split
    · exact d.addDeclaration_eq_add site name span initializer
    · exact d.report_eq_add _
  | block statements span =>
    rw [addStatement, emit]
    split
    · exact addStatements_eq_add site kinds d statements
    · exact d.report_eq_add _
  | conditional condition thenBranch elseBranch span =>
    rw [addStatement, emit]
    split
    · dsimp only
      rw [addLink_eq_add, addElse_eq_add, ← add_followedBy, adopt_add_fork]
      rfl
    · exact d.report_eq_add _

theorem addLink_eq_add (site : Site) (kinds : List StatementKind) (d : Draft) (condition : Expr)
    (s : Stmt) :
    d.addLink site kinds condition s = d.add (emitWhen site kinds d.bindings condition s) := by
  cases s with
  | block statements span =>
    unfold addLink emitWhen
    cases condition with
    | call target types arguments callSpan =>
      dsimp only
      rw [addStatements_eq_add site kinds _ statements, adopt_add_fork, reportAll_eq_add,
        add_followedBy]
      rfl
    | _ => exact d.report_eq_add _
  | _ =>
    unfold addLink emitWhen
    exact d.report_eq_add _

theorem addElse_eq_add (site : Site) (kinds : List StatementKind) (d : Draft) (s : Option Stmt) :
    d.addElse site kinds s = d.add (emitElse site kinds d.bindings s) := by
  cases s with
  | none =>
    unfold addElse emitElse
    exact d.add_empty.symm
  | some s =>
    unfold addElse emitElse
    cases s with
    | conditional condition thenBranch elseBranch span =>
      dsimp only
      rw [addLink_eq_add site kinds d condition thenBranch,
        addElse_eq_add site kinds _ elseBranch, add_followedBy]
      rfl
    | block statements span =>
      dsimp only
      rw [addStatements_eq_add site kinds _ statements, adopt_add_fork]
      rfl
    | _ => exact d.report_eq_add _

/-- Running statements one by one adds their common emission. -/
theorem addStatements_eq_add (site : Site) (kinds : List StatementKind) (d : Draft)
    (ss : List Stmt) :
    d.addStatements site kinds ss = d.add (emitAll site kinds d.bindings ss) := by
  cases ss with
  | nil =>
    rw [addStatements, emitAll]
    exact d.add_empty.symm
  | cons s ss =>
    rw [addStatements, emitAll, addStatement_eq_add site kinds d s,
      addStatements_eq_add site kinds _ ss, add_followedBy]
    rfl

end

end Draft

end GatewayPolicy
