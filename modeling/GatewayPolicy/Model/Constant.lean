import GatewayPolicy.Model.Part

/-! # Constants

  A constant expression is made of literals, parentheses, casts, negation,
  concatenation with `+`, and references to constant fields. A reference is
  looked up in the class it stands in, or in the class named in front of it,
  and its initializer is evaluated in the class that declares it.

  - `evaluateWith` evaluates an expression, given how references evaluate.
  - `Model.constantWithin` evaluates a reference. The fields being evaluated
    are remembered, so a constant that depends on itself is found out.
  - `Model.evaluate` evaluates an expression in the scope of a class.
-/

namespace GatewayPolicy

/-- Why an expression is no constant. -/
inductive SymbolError where
  /-- No field of that name exists. -/
  | unresolved (path : List String)
  /-- The field exists and is no constant. -/
  | notConstant (path : List String)
  /-- The constant depends on itself. -/
  | cycle (path : List String)
  /-- The expression is of a shape that is never constant. -/
  | notConstantExpression (shape : String)
  deriving DecidableEq, Repr, Inhabited

/-- The error in words. -/
def SymbolError.text : SymbolError → String
  | unresolved path => s!"'{pathText path}' could not be resolved to a constant"
  | notConstant path => s!"'{pathText path}' is not a constant"
  | cycle path => s!"Constant '{pathText path}' depends on itself"
  | notConstantExpression shape => s!"{shape} is not a compile-time constant"

/-- The value of an expression, given the values of references. -/
def evaluateWith (reference : List String → Except SymbolError String) :
    Expr → Except SymbolError String
  | .literal l =>
    match l.kind with
    | .string | .number | .boolean => .ok l.value
    | .null => .ok ""
    | .interpolated => .error (.notConstantExpression "An interpolated string")
  | .paren inner _ => evaluateWith reference inner
  | .cast _ operand _ => evaluateWith reference operand
  | .unary .negate operand _ => do
    let value ← evaluateWith reference operand
    return "-" ++ value
  | .binary .add left right _ => do
    let a ← evaluateWith reference left
    let b ← evaluateWith reference right
    return a ++ b
  | .name n _ => reference [n]
  | .member target n conditional span =>
    match (Expr.member target n conditional span).path? with
    | some path => reference path
    | none => .error (.notConstantExpression "A conditional member access")
  | e => .error (.notConstantExpression e.shape)

/-- The class and field that a path names, seen from a class: the last name is
    the field, the name before it the class. -/
def fieldOfPath (className : String) (path : List String) : String × String :=
  match path.reverse with
  | [] => (className, "")
  | [field] => (className, field)
  | field :: owner :: _ => (owner, field)

namespace Model

/-- The value of a reference, looked up at most `depth` references deep. The
    fields in `visiting` are being evaluated already. -/
def constantWithin (m : Model) :
    Nat → List (String × String) → String → List String → Except SymbolError String
  | 0, _, _, path => .error (.cycle path)
  | depth + 1, visiting, className, path =>
    let (owner, name) := fieldOfPath className path
    match m.field? owner name with
    | none => .error (.unresolved path)
    | some field =>
      if field.isConst then
        match field.initializer with
        | none => .error (.notConstant path)
        | some e =>
          if visiting.contains (owner, name) then .error (.cycle path)
          else evaluateWith (constantWithin m depth ((owner, name) :: visiting) owner) e
      else .error (.notConstant path)

/-- The value of a constant expression in the scope of a class. References nest
    no deeper than there are fields, unless one depends on itself. -/
def evaluate (m : Model) (className : String) (e : Expr) : Except SymbolError String :=
  evaluateWith (m.constantWithin (m.fieldCount + 1) [] className) e

end Model

end GatewayPolicy
