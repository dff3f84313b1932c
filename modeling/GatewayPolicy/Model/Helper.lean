import GatewayPolicy.Authoring.Trivia
import GatewayPolicy.Markup.Inline
import GatewayPolicy.Model.Part

/-! # Helper methods

  A call of a method that is declared in the sources stands for the code of
  that method. The code is copied into the document.

  - `Model.resolve` finds the method that a call means. Methods of one name are
    told apart by the number of their parameters only.
  - `Helper.code?` is the code of a method, ready to be copied.
-/

namespace GatewayPolicy

/-- A method and the part that declares it. -/
structure Helper where
  part : Part
  method : MethodDecl
  deriving Inhabited

/-- The text between two braces, or the text itself. -/
def withoutBraces (text : String) : String :=
  match text.toList with
  | [] => text
  | c :: cs =>
    if c = '\x7b' && cs.getLast? = some '\x7d' then String.ofList cs.dropLast else text

/-- The code of a method as inline code; nothing when it has no body. -/
def Helper.code? (h : Helper) : Option String :=
  match h.method.body with
  | none => none
  | some body =>
    let text := h.part.file.slice body.span
    match body with
    | .expression _ => some (inlineExpression (stripTrivia text))
    | .block .. => some (inlineBlock (stripTrivia (withoutBraces text)))

/-- The class that a called expression is looked up in, seen from a class. -/
def calledClass? (className : String) (target : Expr) : Option String :=
  match target.receiver? with
  | none => some className
  | some (.name "this" _) => some className
  | some receiver => receiver.path?.bind (·.getLast?)

namespace Model

/-- The methods of a name over the parts of a class, in order. -/
def methodsNamed (m : Model) (className method : String) : List Helper :=
  (m.partsOf className).flatMap fun part =>
    (part.decl.methods.filter (·.name == method)).map fun method => { part, method }

/-- The method that a call of `target` with `count` arguments means: the first
    with as many parameters, else the first of the name. -/
def resolve (m : Model) (className : String) (target : Expr) (count : Nat) : Option Helper :=
  match target.methodName?, calledClass? className target with
  | some method, some owner =>
    let candidates := m.methodsNamed owner method
    candidates.find? (·.method.parameters.length == count) <|> candidates.head?
  | _, _ => none

end Model

end GatewayPolicy
