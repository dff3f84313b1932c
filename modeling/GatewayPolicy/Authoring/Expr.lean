import GatewayPolicy.Authoring.Operator

/-! # Expressions

  The tree of an expression, with the span of every part. It keeps what the
  compiler reads; code that is only copied is kept by its span.

  - `Expr.span` and `Expr.shape` say where an expression stands and what it is.
  - `Expr.path?` is the dotted path that names and member accesses form.
-/

namespace GatewayPolicy

/-- What a literal is. -/
inductive LiteralKind where
  /-- A string or a character. -/
  | string
  | number
  | boolean
  | null
  /-- A string with code in it, kept as written. -/
  | interpolated
  deriving DecidableEq, Repr, Inhabited

/-- A literal and the text it stands for. -/
structure Literal where
  kind : LiteralKind
  value : String
  span : Span
  deriving DecidableEq, Repr, Inhabited

mutual

/-- An expression. -/
inductive Expr where
  | literal (literal : Literal)
  | name (name : String) (span : Span)
  /-- `target.name`, or `target?.name` when `conditional`. -/
  | member (target : Expr) (name : String) (conditional : Bool) (span : Span)
  /-- `target<T>(a, b)`. -/
  | call (target : Expr) (typeArguments : List String) (arguments : List Argument) (span : Span)
  /-- `target[a, b]`. -/
  | index (target : Expr) (arguments : List Argument) (span : Span)
  /-- `new T(a, b) { ... }`; type, arguments and initializer may be left out. -/
  | object (type : Option String) (arguments : Option (List Argument))
      (initializer : Initializer) (span : Span)
  /-- `new T[] { a, b }` or `[a, b]`. -/
  | array (type : Option String) (elements : List Expr) (span : Span)
  /-- `(x, y) => body`. -/
  | lambda (parameters : List String) (body : Expr) (span : Span)
  /-- `(x, y) => { ... }`, the body kept by its span. -/
  | blockLambda (parameters : List String) (body : Span) (span : Span)
  | unary (op : UnaryOp) (operand : Expr) (span : Span)
  | binary (op : BinaryOp) (left right : Expr) (span : Span)
  | assign (op : AssignOp) (target value : Expr) (span : Span)
  /-- `condition ? whenTrue : whenFalse`. -/
  | conditional (condition whenTrue whenFalse : Expr) (span : Span)
  /-- `(T)operand`. -/
  | cast (type : String) (operand : Expr) (span : Span)
  /-- `typeof(T)`, `default`, `nameof(x)` and the like. -/
  | typeOperator (keyword : String) (span : Span)
  | paren (inner : Expr) (span : Span)
  /-- A type or pattern on the right of `is` or `as`. -/
  | typeName (type : String) (span : Span)
  /-- Code outside this grammar. -/
  | unparsed (span : Span)

/-- An argument of a call, which may be named. -/
inductive Argument where
  | mk (name : Option String) (value : Expr) (span : Span)

/-- `name = value` in the braces after a new object. -/
inductive FieldValue where
  | mk (name : String) (value : Expr) (span : Span)

/-- What stands in the braces after a new object. -/
inductive Initializer where
  /-- There are no braces. -/
  | absent
  | fields (fields : List FieldValue)
  | elements (elements : List Expr)

end

instance : Inhabited Expr := ⟨.unparsed default⟩

instance : Inhabited Argument := ⟨.mk none default default⟩

namespace Argument

/-- The name in front of an argument. -/
def name : Argument → Option String
  | mk name _ _ => name

/-- The expression passed. -/
def value : Argument → Expr
  | mk _ value _ => value

/-- The place of an argument, its name included. -/
def span : Argument → Span
  | mk _ _ span => span

end Argument

namespace FieldValue

/-- The field that is set. -/
def name : FieldValue → String
  | mk name _ _ => name

/-- The expression it is set to. -/
def value : FieldValue → Expr
  | mk _ value _ => value

/-- The place from the name to the end of the value. -/
def span : FieldValue → Span
  | mk _ _ span => span

end FieldValue

namespace Expr

/-- The place of an expression. -/
def span : Expr → Span
  | literal l => l.span
  | name _ s | member _ _ _ s | call _ _ _ s | index _ _ s | object _ _ _ s | array _ _ s => s
  | lambda _ _ s | blockLambda _ _ s | unary _ _ s | binary _ _ _ s | assign _ _ _ s => s
  | conditional _ _ _ s | cast _ _ s | typeOperator _ s | paren _ s | typeName _ s => s
  | unparsed s => s

/-- The word for what an expression is, as reports use it. -/
def shape : Expr → String
  | literal _ => "LiteralExpression"
  | name .. => "IdentifierName"
  | member .. => "MemberAccessExpression"
  | call .. => "InvocationExpression"
  | index .. => "ElementAccessExpression"
  | object .. => "ObjectCreationExpression"
  | array .. => "ArrayCreationExpression"
  | lambda .. | blockLambda .. => "LambdaExpression"
  | unary .. => "UnaryExpression"
  | binary .. => "BinaryExpression"
  | assign .. => "AssignmentExpression"
  | conditional .. => "ConditionalExpression"
  | cast .. => "CastExpression"
  | typeOperator .. => "TypeOperatorExpression"
  | paren .. => "ParenthesizedExpression"
  | typeName .. => "TypeSyntax"
  | unparsed _ => "OpaqueExpression"

/-- The names of a dotted path such as `Limits.Calls`, if the expression is
    one. A conditional access is none. -/
def path? : Expr → Option (List String)
  | name n _ => some [n]
  | member target n false _ => target.path?.map (· ++ [n])
  | _ => none

/-- The last name of a called expression: the method that a call calls. -/
def methodName? : Expr → Option String
  | name n _ => some n
  | member _ n _ _ => some n
  | _ => none

/-- What a called expression is called on. -/
def receiver? : Expr → Option Expr
  | member target _ _ _ => some target
  | _ => none

end Expr

/-- A path as written. -/
def pathText (path : List String) : String := ".".intercalate path

end GatewayPolicy
