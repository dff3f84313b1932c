import GatewayPolicy.Model.Helper
import GatewayPolicy.Policy.Site
import GatewayPolicy.Policy.Value

/-! # Values of expressions

  Operations never look at expressions. They are given the value of each: new
  objects become fields, arrays become lists, constants become their text, and
  calls of helper methods become inline code. Whatever has no value is reported
  and becomes the empty text, so there always is a value.

  - `extract` gives the value of an expression.
-/

namespace GatewayPolicy

/-- The code that reads a variable of the gateway. -/
def variableCode (name : String) : String :=
  inlineExpression ("(string)context.Variables[\"" ++ name ++ "\"]")

/-- The empty text, after a problem has been reported. -/
def Site.refuse (site : Site) (p : Problem) (span : Span) : Reported Value := do
  site.report p span
  return .single "" span

/-- Whether an expression refers to something by name. -/
def Expr.isReference : Expr → Bool
  | .name .. | .member .. => true
  | _ => false

/-- How an expression that is no constant is reported. -/
def constantProblem (e : Expr) (error : SymbolError) : Problem :=
  match error with
  | .notConstantExpression _ =>
    if e.isReference then .notConstant error else .unsupportedConstant error
  | _ => .notConstant error

/-- The value of a constant expression. -/
def extractConstant (site : Site) (e : Expr) : Reported Value :=
  match site.model.evaluate site.className e with
  | .ok text => return .single text e.span
  | .error error => site.refuse (constantProblem e error) e.span

/-- The value of a call: the code of the method that it calls. -/
def extractCall (site : Site) (target : Expr) (count : Nat) (span : Span) : Reported Value :=
  match (site.model.resolve site.className target count).bind Helper.code? with
  | some code => return .single code span
  | none =>
    let name := match target.path? with
      | some path => pathText path
      | none => site.slice target.span
    site.refuse (.unresolvedCode name) span

mutual

/-- The value of an expression. -/
def extract (site : Site) (b : Bindings) : Expr → Reported Value
  | .literal l =>
    match l.kind with
    | .null => return .single "" l.span
    | .interpolated => return .single (inlineExpression (site.slice l.span)) l.span
    | .string | .number | .boolean => return .single l.value l.span
  | .object type _ (.fields fields) span => do
    return .named type (← extractFields site b fields) span
  | .object type _ (.elements elements) span => do
    return .positional type (← extractAll site b elements) span
  | .object type (some (a :: as)) .absent span => do
    return .positional type (← extractArguments site b (a :: as)) span
  | .object type _ .absent span => return .named type [] span
  | .array type elements span => do
    return .positional type (← extractAll site b elements) span
  | .call target _ arguments span => extractCall site target arguments.length span
  | .paren inner _ => extract site b inner
  | .name n span =>
    match b.lookup? n with
    | some holder => return .single (variableCode holder) span
    | none => extractConstant site (.name n span)
  | .member target n conditional span => extractConstant site (.member target n conditional span)
  | .binary op left right span => extractConstant site (.binary op left right span)
  | .unary op operand span => extractConstant site (.unary op operand span)
  | .cast type operand span => extractConstant site (.cast type operand span)
  | e => site.refuse (.unsupportedParameter e.shape) e.span

/-- The values of some expressions, in order. -/
def extractAll (site : Site) (b : Bindings) : List Expr → Reported (List Value)
  | [] => return []
  | e :: es => do
    let v ← extract site b e
    let vs ← extractAll site b es
    return v :: vs

/-- The values of some fields, in order. -/
def extractFields (site : Site) (b : Bindings) :
    List FieldValue → Reported (List (String × Value))
  | [] => return []
  | .mk name e _ :: fields => do
    let v ← extract site b e
    let vs ← extractFields site b fields
    return (name, v) :: vs

/-- The values of some arguments, in order. -/
def extractArguments (site : Site) (b : Bindings) : List Argument → Reported (List Value)
  | [] => return []
  | .mk _ e _ :: arguments => do
    let v ← extract site b e
    let vs ← extractArguments site b arguments
    return v :: vs

end

end GatewayPolicy
