import GatewayPolicy.Authoring.Declaration
import GatewayPolicy.Diagnostic
import GatewayPolicy.Model.Constant

/-! # Problems with policy code

  Everything that can be wrong with policy code is a `Problem`. A problem is
  kept as a cause; its code and its words are given here, once for all.

  - `Problem.code` and `Problem.message` say how a problem is reported.
  - `Problem.locatedAt` makes a diagnostic of a problem at a place.
-/

namespace GatewayPolicy

/-- How many arguments an operation takes; no upper bound means any number. -/
structure ArgumentRange where
  least : Nat
  most : Option Nat
  deriving DecidableEq, Repr, Inhabited

namespace ArgumentRange

/-- Exactly so many arguments. -/
def exactly (n : Nat) : ArgumentRange := { least := n, most := some n }

/-- Whether a number of arguments is allowed. -/
def allows (r : ArgumentRange) (count : Nat) : Bool :=
  r.least ≤ count && r.most.all (count ≤ ·)

/-- The range in words. -/
def text (r : ArgumentRange) : String :=
  match r.most with
  | none => s!"at least {r.least}"
  | some most => if r.least = most then s!"{most}" else s!"{r.least} to {most}"

end ArgumentRange

/-- Where a single text was looked for. -/
inductive TextSlot where
  | argument
  | value
  | field (name : String)
  deriving DecidableEq, Repr, Inhabited

/-- The place in words. -/
def TextSlot.text : TextSlot → String
  | argument => "argument"
  | value => "value"
  | field name => s!"'{name}'"

/-- What is wrong with policy code. -/
inductive Problem where
  /-- A statement that has no counterpart in a document. -/
  | statement (kind : StatementKind)
  /-- A branch that is no block. -/
  | branchBody (kind : StatementKind)
  /-- A local variable without a value. -/
  | uninitialized (name : String)
  /-- An expression where a call was needed. -/
  | noCall (shape : String)
  /-- A call of something that is no operation. -/
  | noOperation (target : String)
  | argumentCount (method : String) (range : ArgumentRange) (count : Nat)
  /-- An argument that has to be a new object. -/
  | noObject (method shape : String)
  | argumentType (method expected actual : String)
  /-- The variable that a result is stored in is named twice, differently. -/
  | variableConflict (element name : String)
  | missingField (element field : String)
  | onlyOneOf (element : String) (fields : List String)
  | oneOfRequired (element : String) (fields : List String)
  /-- A reference that is no constant. -/
  | notConstant (error : SymbolError)
  /-- An operator expression that is no constant. -/
  | unsupportedConstant (error : SymbolError)
  /-- An expression that is no configuration value. -/
  | unsupportedParameter (shape : String)
  /-- A call of a method whose code is not in the sources. -/
  | unresolvedCode (name : String)
  /-- A value that has to be a single text. -/
  | notSingle (slot : TextSlot)
  /-- A field that has to be a list. -/
  | notList (element field : String)
  | documentNameNotConstant (error : SymbolError)
  | documentNameNotPlain (name : String)
  | duplicateSection (element document : String)
  | emptySection (element : String)
  /-- Tokens that form no statement. -/
  | malformed (fault : SyntaxFault)
  deriving DecidableEq, Repr, Inhabited

namespace Problem

/-- The code that a problem is reported with. -/
def code : Problem → Code
  | statement _ | branchBody _ | uninitialized _ => .unsupportedStatement
  | noCall _ => .unsupportedExpression
  | noOperation _ => .methodNotSupported
  | argumentCount .. => .argumentCountMismatch
  | noObject .. => .argumentNotObjectCreation
  | argumentType .. | variableConflict .. => .argumentTypeMismatch
  | missingField .. => .requiredParameterMissing
  | onlyOneOf .. => .onlyOneOfAllowed
  | oneOfRequired .. => .atLeastOneOfRequired
  | notConstant _ | documentNameNotConstant _ => .notConstant
  | unresolvedCode _ => .cannotResolveReferencedCode
  | emptySection _ => .emptySection
  | unsupportedConstant _ | unsupportedParameter _ | notSingle _ | notList ..
  | documentNameNotPlain _ => .parameterNotSupported
  | duplicateSection .. => .duplicateSection
  | malformed _ => .invalidSyntax

/-- The words that a problem is reported with. -/
def message : Problem → String
  | statement kind => s!"{kind.text} is not supported"
  | branchBody kind => s!"{kind.text} is not supported as a branch body, expected Block"
  | uninitialized name => s!"Local '{name}' must be initialized by a policy call"
  | noCall shape => s!"{shape} is not supported, expected InvocationExpression"
  | noOperation target => s!"Method '{target}' is not supported"
  | argumentCount method range count =>
    s!"Method '{method}' expects {range.text} argument(s) but was called with {count}"
  | noObject method shape =>
    s!"Argument of '{method}' must be an object creation expression but was {shape}"
  | argumentType method expected actual =>
    s!"Argument of '{method}' must be of type {expected} but was {actual}"
  | variableConflict element name =>
    s!"{element}: OutputTokenVariableName conflicts with the declared variable '{name}'"
  | missingField element field => s!"{element}: required parameter '{field}' is missing"
  | onlyOneOf element fields =>
    let names := ", ".intercalate fields
    s!"{element}: only one of {names} is allowed"
  | oneOfRequired element fields =>
    let names := ", ".intercalate fields
    s!"{element}: one of {names} is required"
  | notConstant error | unsupportedConstant error => error.text
  | unsupportedParameter shape => s!"{shape} is not supported as a policy parameter"
  | unresolvedCode name =>
    s!"Cannot find the code of '{name}'. " ++
      "Expression methods must be declared with a body in the compiled sources"
  | notSingle slot => s!"Expected a single value for {slot.text}"
  | notList element field => s!"{element}: '{field}' must be an array"
  | documentNameNotConstant error => s!"Document name: {error.text}"
  | documentNameNotPlain name =>
    s!"Document name '{name}' must not contain path separators or be a relative directory"
  | duplicateSection element document =>
    s!"Section '{element}' is already defined in document '{document}'"
  | emptySection element => s!"Section '{element}' cannot be empty or expression-bodied"
  | malformed fault => fault.message

/-- The diagnostic of a problem at a place. -/
def locatedAt (p : Problem) (location : Location) : Diagnostic :=
  { code := p.code, location, message := p.message }

end Problem

end GatewayPolicy
