import GatewayPolicy.Source.Span

/-! # Diagnostics

  A diagnostic is a problem found in authored code: a code from a fixed list,
  the place, and a message. Diagnostics never stop a compilation.

  - `Code.id` numbers the codes from `TG1001` on, in the order of the list.
  - `Diagnostic.text` is the line that a report prints.
-/

namespace GatewayPolicy

/-- Why something was reported. -/
inductive Code where
  | unsupportedStatement
  | unsupportedExpression
  | methodNotSupported
  | argumentCountMismatch
  | argumentNotObjectCreation
  | argumentTypeMismatch
  | requiredParameterMissing
  | onlyOneOfAllowed
  | atLeastOneOfRequired
  | notConstant
  | cannotResolveReferencedCode
  | emptySection
  | parameterNotSupported
  | duplicateSection
  | invalidSyntax
  deriving DecidableEq, Repr, Inhabited

namespace Code

/-- Every code, in the order of their numbers. -/
def all : List Code :=
  [unsupportedStatement, unsupportedExpression, methodNotSupported, argumentCountMismatch,
   argumentNotObjectCreation, argumentTypeMismatch, requiredParameterMissing, onlyOneOfAllowed,
   atLeastOneOfRequired, notConstant, cannotResolveReferencedCode, emptySection,
   parameterNotSupported, duplicateSection, invalidSyntax]

/-- The word that structured reports use for a code. -/
def word : Code → String
  | unsupportedStatement => "UnsupportedStatement"
  | unsupportedExpression => "UnsupportedExpression"
  | methodNotSupported => "MethodNotSupported"
  | argumentCountMismatch => "ArgumentCountMismatch"
  | argumentNotObjectCreation => "ArgumentNotObjectCreation"
  | argumentTypeMismatch => "ArgumentTypeMismatch"
  | requiredParameterMissing => "RequiredParameterMissing"
  | onlyOneOfAllowed => "OnlyOneOfAllowed"
  | atLeastOneOfRequired => "AtLeastOneOfRequired"
  | notConstant => "NotConstant"
  | cannotResolveReferencedCode => "CannotResolveReferencedCode"
  | emptySection => "EmptySection"
  | parameterNotSupported => "ParameterNotSupported"
  | duplicateSection => "DuplicateSection"
  | invalidSyntax => "InvalidSyntax"

/-- The code of a word. -/
def ofWord? (w : String) : Option Code := all.find? (·.word == w)

/-- The number that a line of a report gives for a code. -/
def id (c : Code) : String := s!"TG{1001 + all.idxOf c}"

end Code

/-- A problem at a place. -/
structure Diagnostic where
  code : Code
  location : Location
  message : String
  deriving DecidableEq, Repr, Inhabited

/-- A diagnostic as one line of a report. -/
def Diagnostic.text (d : Diagnostic) : String :=
  s!"{d.location.text}: error {d.code.id}: {d.message}"

end GatewayPolicy
