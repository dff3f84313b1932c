import GatewayPolicy.Authoring.Group

/-! # Types

  A type is kept as text: its tokens joined, with a blank after each comma.

  - `Parse.typeName` reads a type, type arguments and array brackets included.
  - `Parse.typeArguments` reads a list of types in angle brackets.
-/

namespace GatewayPolicy

/-- Reserved words that name types all the same. -/
def typeKeywords : List String := ["bool", "void"]

/-- Whether a token can begin the name of a type. -/
def Token.namesType (t : Token) : Bool :=
  t.isIdentifier && (!isReserved t.text || typeKeywords.contains t.text)

/-- The tokens of a type as text. -/
def typeText (tokens : List Token) : String :=
  String.join (tokens.map fun t => if t.isSymbol .comma then ", " else t.text)

namespace Parse

/-- Type arguments in angle brackets, each read by `type`. -/
def typeArgumentsOf (type : Parse String) : Parse (List String) := do
  let _ ← expect .less
  let types ← (do if ← at? .greater then return [] else commaList type)
  let _ ← expect .greater
  return types

/-- What follows the first name of a type: type arguments, and further names
    behind dots. -/
def typePathWithin (type : Parse String) : Nat → Parse Unit
  | 0 => pure ()
  | steps + 1 => do
    if ← at? .less then
      let _ ← typeArgumentsOf type
    if (← atAny? [.dot, .doubleColon]) && (← peekAt 1).isIdentifier then
      let _ ← advance
      let _ ← advance
      typePathWithin type steps

/-- The question marks and brackets behind a type. -/
def typeEndingWithin : Nat → Parse Unit
  | 0 => pure ()
  | steps + 1 => do
    let next ← peekAt 1
    if (← at? .question) && (next.isIdentifier ||
        next.isAnySymbol [.greater, .comma, .closeParen, .openBracket, .closeBracket]) then
      let _ ← advance
      typeEndingWithin steps
    else if (← at? .openBracket) && next.isAnySymbol [.closeBracket, .comma] then
      let _ ← skipGroup
      typeEndingWithin steps

/-- A type whose type arguments are read by `inner`. -/
def typeOf (inner : Parse String) : Parse String := do
  let start ← cursor
  if start.peek.isSymbol .openParen then
    let _ ← skipGroup
  else if start.peek.namesType then
    let _ ← advance
    bounded (typePathWithin inner)
  else expected .typeName
  bounded typeEndingWithin
  return typeText (start.tokensTo (← cursor))

/-- A type with type arguments nested at most `depth` deep. -/
def typeWithin : Nat → Cursor → Nesting → Step String
  | 0 => expected .typeName
  | depth + 1 => fun c n => typeOf (fun c n => typeWithin depth c n) c n

/-- A type. -/
def typeName : Parse String := bounded typeWithin

/-- Type arguments in angle brackets. -/
def typeArguments : Parse (List String) := typeArgumentsOf typeName

/-- Type arguments that a parenthesis follows, which is not taken. -/
def callTypeArguments : Parse (List String) := do
  let types ← typeArguments
  require .openParen
  return types

end Parse

end GatewayPolicy
