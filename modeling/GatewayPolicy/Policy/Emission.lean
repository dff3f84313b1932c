import GatewayPolicy.Policy.Operation.Bound

/-! # What statements add to a section

  Statements add nodes to the section they stand in, report problems, and bind
  local names. What a statement adds is an `Emission`, and emissions follow one
  another. That running a statement does no more than this is said where
  statements are run.

  - `emit` is the emission of a statement, `emitAll` that of a list.
  - A conditional becomes one `choose` element; each link of the chain becomes a
    `when` in it, and a block at the end an `otherwise`.
-/

namespace GatewayPolicy

/-! ## Emissions -/

/-- What code adds: nodes and diagnostics after those that are there, and
    bindings in front of those that are there. -/
structure Emission where
  nodes : List Node := []
  diagnostics : List Diagnostic := []
  bindings : Bindings := []
  deriving Inhabited

namespace Emission

/-- One emission, then another. -/
def followedBy (e f : Emission) : Emission where
  nodes := e.nodes ++ f.nodes
  diagnostics := e.diagnostics ++ f.diagnostics
  bindings := f.bindings ++ e.bindings

/-- An emission whose nodes become the children of one element. -/
def within (e : Emission) (element : Element) : Emission :=
  { e with nodes := [(element.append e.nodes).toNode] }

/-- An emission that only reports. -/
def ofReport (d : Diagnostic) : Emission := { diagnostics := [d] }

/-- The emission of an attempt that gives a node. -/
def ofNode (x : Attempt Node) : Emission :=
  { nodes := x.run.value.toList, diagnostics := x.run.diagnostics }

/-- The emission of an attempt that gives an element and writes a variable, to
    which a local of the same name is bound. -/
def ofBound (name : String) (x : Attempt Element) : Emission :=
  match x.run.value with
  | some e => { nodes := [e.toNode], diagnostics := x.run.diagnostics, bindings := [(name, name)] }
  | none => { diagnostics := x.run.diagnostics }

end Emission

/-! ## Calls -/

/-- The operation that a call names: only calls on the section's parameter are
    operations. -/
def operationName? (site : Site) (target : Expr) : Option String :=
  match target.receiver? with
  | some (.name n _) => if n == site.receiver then target.methodName? else none
  | _ => none

/-- Reports an expression that should have been a call. -/
def emitNoCall (site : Site) (e : Expr) : Emission :=
  .ofReport (site.diagnostic (.noCall e.shape) e.span)

/-- Reports a call of something that is no operation. -/
def emitNoOperation (site : Site) (target : Expr) (span : Span) : Emission :=
  .ofReport (site.diagnostic (.noOperation (site.slice target.span)) span)

/-- The emission of an expression that stands as a statement. -/
def emitExpression (site : Site) (b : Bindings) : Expr → Emission
  | .call target _ arguments span =>
    match operationName? site target with
    | none => emitNoOperation site target span
    | some method =>
      match Operation.named? method with
      | none => emitNoOperation site target span
      | some operation => .ofNode (operation.run site b { method, arguments, span })
  | e => emitNoCall site e

/-- The emission of a local declaration. -/
def emitDeclaration (site : Site) (b : Bindings) (name : String) (span : Span) :
    Option Expr → Emission
  | none => .ofReport (site.diagnostic (.uninitialized name) span)
  | some (.call target _ arguments callSpan) =>
    match operationName? site target with
    | none => emitNoOperation site target callSpan
    | some method =>
      match BoundOperation.named? method with
      | none => emitNoOperation site target callSpan
      | some operation =>
        .ofBound name (operation.run site b { method, arguments, span := callSpan } name)
  | some e => emitNoCall site e

/-! ## Statements -/

/-- The element of a link of a conditional chain. -/
def whenElement (condition : Value) : Element :=
  ({ name := "when" } : Element).addAttribute "condition" (condition.text?.getD "")

/-- Reports a branch that is no block. -/
def emitBranchBody (site : Site) (s : Stmt) : Emission :=
  .ofReport (site.diagnostic (.branchBody s.kind) s.span)

/-- Reports a statement that nothing is made of. -/
def emitUnsupported (site : Site) (s : Stmt) : Emission :=
  .ofReport (site.diagnostic (.statement s.kind) s.span)

/-- The kinds of statements that something is made of. -/
def allKinds : List StatementKind := [.block, .expression, .conditional, .declaration]

mutual

/-- The emission of a statement. Kinds that are not listed are reported. -/
def emit (site : Site) (kinds : List StatementKind) (b : Bindings) : Stmt → Emission
  | .malformed fault span => .ofReport (site.diagnostic (.malformed fault) span)
  | .other which span => emitUnsupported site (.other which span)
  | .expression e span =>
    if kinds.contains .expression then emitExpression site b e
    else emitUnsupported site (.expression e span)
  | .declaration type name initializer span =>
    if kinds.contains .declaration then emitDeclaration site b name span initializer
    else emitUnsupported site (.declaration type name initializer span)
  | .block statements span =>
    if kinds.contains .block then emitAll site kinds b statements
    else emitUnsupported site (.block statements span)
  | .conditional condition thenBranch elseBranch span =>
    if kinds.contains .conditional then
      let link := emitWhen site kinds b condition thenBranch
      (link.followedBy (emitElse site kinds (link.bindings ++ b) elseBranch)).within
        { name := "choose" }
    else emitUnsupported site (.conditional condition thenBranch elseBranch span)

/-- The emission of a link: its condition and the statement under it. -/
def emitWhen (site : Site) (kinds : List StatementKind) (b : Bindings) (condition : Expr) :
    Stmt → Emission
  | .block statements _ =>
    match condition with
    | .call .. =>
      let v := extract site b condition
      Emission.followedBy { diagnostics := v.diagnostics }
        ((emitAll site kinds b statements).within (whenElement v.value))
    | e => emitNoCall site e
  | s => emitBranchBody site s

/-- The emission of what follows a link. -/
def emitElse (site : Site) (kinds : List StatementKind) (b : Bindings) : Option Stmt → Emission
  | none => {}
  | some (.conditional condition thenBranch elseBranch _) =>
    let link := emitWhen site kinds b condition thenBranch
    link.followedBy (emitElse site kinds (link.bindings ++ b) elseBranch)
  | some (.block statements _) =>
    (emitAll site kinds b statements).within { name := "otherwise" }
  | some s => emitBranchBody site s

/-- The emission of statements, in order. Each sees what those before it bound. -/
def emitAll (site : Site) (kinds : List StatementKind) (b : Bindings) : List Stmt → Emission
  | [] => {}
  | s :: ss =>
    let first := emit site kinds b s
    first.followedBy (emitAll site kinds (first.bindings ++ b) ss)

end

end GatewayPolicy
