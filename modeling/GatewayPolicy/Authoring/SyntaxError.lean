import GatewayPolicy.Authoring.Token

/-! # What can be wrong with a sequence of tokens

  A fault says why tokens do not form what was looked for. It is kept as a
  cause; the words of all faults stand in `SyntaxFault.message`.
-/

namespace GatewayPolicy

/-- What was looked for. -/
inductive Expectation where
  | symbol (s : Symbol)
  | word (w : String)
  | identifier
  | typeName
  | typeDeclaration
  | expression
  | castOperand
  | memberName
  /-- What has to follow the type of a new object. -/
  | creation
  deriving DecidableEq, Repr, Inhabited

/-- What was looked for, in words. -/
def Expectation.text : Expectation → String
  | symbol s => s!"'{s.text}'"
  | word w => s!"'{w}'"
  | identifier => "identifier"
  | typeName => "type"
  | typeDeclaration => "type declaration"
  | expression => "expression"
  | castOperand => "cast operand"
  | memberName => "member name"
  | creation => "'(' or '\x7b'"

/-- Why tokens do not form what was looked for. -/
inductive SyntaxFault where
  /-- Something else was found, or nothing at the end of the file. -/
  | expected (what : Expectation) (found : Option String)
  /-- A group has to start with a bracket. -/
  | noBracket (found : String)
  /-- The file ends inside a group. -/
  | unclosed (opening : String) (closing : Symbol)
  /-- A bracket closes a group that another bracket opened. -/
  | mismatched (found : String) (closing : Symbol)
  /-- The file ends inside type parameters. -/
  | unclosedAngle
  /-- Code is nested deeper than `limit` levels. -/
  | tooDeep (limit : Nat)
  /-- A declaration of several variables at once. -/
  | severalVariables
  deriving DecidableEq, Repr, Inhabited

/-- The wording of a fault. -/
def SyntaxFault.message : SyntaxFault → String
  | expected what none => s!"Expected {what.text} but reached end of file"
  | expected what (some found) => s!"Expected {what.text} but found '{found}'"
  | noBracket found => s!"Expected an opening bracket but found '{found}'"
  | unclosed opening closing => s!"Unbalanced '{opening}': expected '{closing.text}'"
  | mismatched found closing => s!"Mismatched '{found}': expected '{closing.text}'"
  | unclosedAngle => "Unbalanced '<'"
  | tooDeep limit => s!"Expression nested too deeply (more than {limit} levels)"
  | severalVariables => "Declarations of more than one variable are not supported"

/-- A fault at a place. -/
structure SyntaxError where
  fault : SyntaxFault
  span : Span
  deriving DecidableEq, Repr, Inhabited

end GatewayPolicy
