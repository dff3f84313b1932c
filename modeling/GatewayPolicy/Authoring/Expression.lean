import GatewayPolicy.Authoring.Expr
import GatewayPolicy.Authoring.Literal
import GatewayPolicy.Authoring.TypeName

/-! # Reading expressions

  Expressions are read by descent. Two productions call back to the top of the
  grammar, assignments and unary operands, and each such call is one level of
  nesting. A `Grammar` holds the two; every production below is a plain
  function of the grammar one level deeper, and `Grammar.within` ties them
  together by recursion on the levels still allowed.

  - `Parse.operands` reads binary operators by their precedence.
  - `Parse.trailers` reads what follows a primary expression: member accesses,
    calls, index lists.
  - `Parse.lambda?` decides by looking ahead whether a lambda begins.
-/

namespace GatewayPolicy

/-- The productions that nest. -/
structure Grammar where
  assignment : Parse Expr
  unary : Parse Expr

namespace Parse

/-! ## Arguments -/

/-- An argument. It may be named with a colon, and in an attribute with an
    equals sign as well. -/
def argument (g : Grammar) (inAttribute : Bool) : Parse Argument := do
  let start ← here
  let t ← peek
  let next ← peekAt 1
  let named := t.isIdentifier && (next.isSymbol .colon || (inAttribute && next.isSymbol .assign))
  if named then
    let _ ← advance
    let _ ← advance
  unless inAttribute do
    let _ ← takeWhile (·.isAnyWord ["ref", "out", "in"])
  let value ← g.assignment
  return .mk (if named then some t.text else none) value (start.cover (← last))

/-- The arguments of a call, in parentheses. -/
def argumentList (g : Grammar) : Parse (List Argument) := do
  let _ ← expect .openParen
  let arguments ← (do
    if ← at? .closeParen then return [] else commaList (argument g false))
  let _ ← expect .closeParen
  return arguments

/-- A call of `target`, of which the parentheses have to be next. -/
def callOf (g : Grammar) (target : Expr) (types : List String) : Parse Expr := do
  let arguments ← argumentList g
  return .call target types arguments (target.span.cover (← last))

/-- A call of `target` if type arguments and a parenthesis follow, else `target`. -/
def genericCall (g : Grammar) (target : Expr) : Parse Expr := do
  if ← at? .less then
    match ← attempt callTypeArguments with
    | some types => callOf g target types
    | none => return target
  else return target

/-! ## New objects and arrays -/

/-- `name = value`. -/
def fieldValue (value : Parse Expr) : Parse FieldValue := do
  let name ← expectName
  let _ ← expect .assign
  let v ← value
  return .mk name.text v (name.span.cover v.span)

/-- Braces behind a new object: fields when the first entry is one, else
    elements. -/
def initializerOf (value : Parse Expr) : Parse Initializer := do
  let _ ← expect .openBrace
  if ← eat .closeBrace then return .fields []
  if (← peek).isIdentifier && (← peekAt 1).isSymbol .assign then
    return .fields (← itemsUntil .closeBrace (fieldValue value))
  else return .elements (← itemsUntil .closeBrace value)

/-- An entry of an initializer: an expression, or braces again, nested at most
    `depth` deep. -/
def initializerValueWithin (g : Grammar) : Nat → Cursor → Nesting → Step Expr
  | 0 => g.assignment
  | depth + 1 => fun c n =>
    if c.peek.isSymbol .openBrace then
      (do
        let start ← here
        let braces ← initializerOf (fun c n => initializerValueWithin g depth c n)
        return Expr.object none none braces (start.cover (← last)) : Parse Expr) c n
    else g.assignment c n

/-- An entry of an initializer. -/
def initializerValue (g : Grammar) : Parse Expr := bounded (initializerValueWithin g)

/-- The elements of an array, up to a closing symbol. -/
def elements (g : Grammar) (close : Symbol) : Parse (List Expr) :=
  itemsUntil close (initializerValue g)

/-- The type of the elements of an array type. -/
def elementType (type : String) : String := String.ofList (type.toList.takeWhile (· ≠ '['))

/-- The rest of a new array that has a type, from its brackets on. -/
def newArray (g : Grammar) (start : Span) (type : Option String) : Parse Expr := do
  if ← at? .openBracket then
    let _ ← skipGroup
  let items ← (do if ← eat .openBrace then elements g .closeBrace else return [])
  return .array (type.map elementType) items (start.cover (← last))

/-- The rest of a new object, from its arguments on. -/
def newObject (g : Grammar) (start : Span) (type : Option String) : Parse Expr := do
  let arguments ← (do
    if ← at? .openParen then return some (← argumentList g) else return none)
  if ← at? .openBrace then
    let braces ← initializerOf (initializerValue g)
    return .object type arguments braces (start.cover (← last))
  if arguments.isNone then expected .creation
  return .object type arguments .absent (start.cover (← last))

/-- `new` and what follows it. -/
def newExpression (g : Grammar) : Parse Expr := do
  let start := (← expectWord "new").span
  if ← at? .openBracket then
    let _ ← skipGroup
    let _ ← expect .openBrace
    let items ← elements g .closeBrace
    return .array none items (start.cover (← last))
  let type ← (do
    if ← atAny? [.openBrace, .openParen] then return none else return some (← typeName))
  let isArray := type.any (·.toList.getLast? = some ']')
  if isArray || (← at? .openBracket) then newArray g start type
  else newObject g start type

/-! ## Primary expressions -/

/-- Words that are read like functions of a type. -/
def typeOperators : List String :=
  ["typeof", "sizeof", "nameof", "default", "checked", "unchecked"]

/-- Takes a token and gives the literal that it is. -/
def literalOf (kind : LiteralKind) (value : String) : Parse Expr := do
  let t ← advance
  return .literal { kind, value, span := t.span }

/-- A name or keyword at the start of an expression. -/
def wordExpression (g : Grammar) (t : Token) : Parse Expr := do
  if ["true", "false"].contains t.text then literalOf .boolean t.text
  else if t.text = "null" then literalOf .null t.text
  else if t.text = "new" then newExpression g
  else if ["this", "base", "bool"].contains t.text then
    let _ ← advance
    return .name t.text t.span
  else if typeOperators.contains t.text then
    let _ ← advance
    if ← at? .openParen then
      let _ ← skipGroup
    return .typeOperator t.text (t.span.cover (← last))
  else if isReserved t.text then expected .expression
  else
    let _ ← advance
    genericCall g (.name t.text t.span)

/-- An expression without operators. -/
def primary (g : Grammar) : Parse Expr := do
  let t ← peek
  match t.kind with
  | .integer | .real => literalOf .number (digitsOf t.text)
  | .string | .character => literalOf .string (stringOf t.text)
  | .verbatimString => literalOf .string (verbatimOf t.text)
  | .interpolatedString => literalOf .interpolated t.text
  | .identifier => wordExpression g t
  | .symbol .openParen =>
    let _ ← advance
    let inner ← g.assignment
    let close ← expect .closeParen
    return .paren inner (t.span.cover close.span)
  | .symbol .openBracket =>
    let _ ← advance
    let items ← elements g .closeBracket
    return .array none items (t.span.cover (← last))
  | .symbol _ | .eof => expected .expression

/-! ## Trailers -/

/-- A member access on `target`, of which the dot has been taken. -/
def memberOf (target : Expr) (conditional : Bool) : Parse Expr := do
  let name ← peek
  if name.isIdentifier then
    let _ ← advance
    return .member target name.text conditional (target.span.cover name.span)
  else expected .memberName

/-- An index list on `target`, of which the bracket has been taken. -/
def indexOf (g : Grammar) (target : Expr) : Parse Expr := do
  let arguments ← commaList (argument g false)
  let close ← expect .closeBracket
  return .index target arguments (target.span.cover close.span)

/-- What follows the expression `e`: accesses, calls, index lists and operators
    behind their operand. An exclamation mark that asserts a value is dropped. -/
def trailersWithin (g : Grammar) : Nat → Expr → Parse Expr
  | 0, e => pure e
  | steps + 1, e => do
    let t ← peek
    if t.isAnySymbol [.dot, .questionDot] then
      let _ ← advance
      let access ← memberOf e (t.isSymbol .questionDot)
      trailersWithin g steps (← genericCall g access)
    else if t.isSymbol .openParen then
      trailersWithin g steps (← callOf g e [])
    else if t.isSymbol .openBracket then
      let _ ← advance
      trailersWithin g steps (← indexOf g e)
    else if t.isAnySymbol [.increment, .decrement] then
      let _ ← advance
      let op : UnaryOp := if t.isSymbol .increment then .postIncrement else .postDecrement
      trailersWithin g steps (.unary op e (e.span.cover t.span))
    else if t.isSymbol .bang && (← peekAt 1).isAnySymbol
        [.dot, .questionDot, .openBracket, .closeParen, .semicolon, .comma] then
      let _ ← advance
      trailersWithin g steps e
    else return e

/-- What follows the expression `e`. -/
def trailers (g : Grammar) (e : Expr) : Parse Expr := bounded (trailersWithin g · e)

/-! ## Unary operators and casts -/

/-- Reserved words that may follow a cast. -/
def castableWords : List String :=
  ["this", "new", "true", "false", "null", "typeof", "default", "base"]

/-- Whether a token can begin the operand of a cast. -/
def startsCastOperand (t : Token) : Bool :=
  (t.isIdentifier && (!isReserved t.text || castableWords.contains t.text)) ||
    t.isLiteral || t.isAnySymbol [.openParen, .bang]

/-- A cast. -/
def castExpression (g : Grammar) : Parse Expr := do
  let start ← expect .openParen
  let type ← typeName
  let _ ← expect .closeParen
  if startsCastOperand (← peek) then
    let operand ← g.unary
    return .cast type operand (start.span.cover operand.span)
  else expected .castOperand

/-- The operator in front of an operand. An `await` that ends a statement or is
    assigned to is a name. -/
def leadingOperator? (t next : Token) : Option UnaryOp :=
  match t.kind with
  | .symbol s => UnaryOp.ofLeading? s
  | _ =>
    if t.isWord "await" && !next.isAnySymbol [.semicolon, .assign] then some .await else none

/-- An operand with the operators in front of it. -/
def unaryOf (g : Grammar) : Parse Expr := do
  let t ← peek
  match leadingOperator? t (← peekAt 1) with
  | some op =>
    let _ ← advance
    let operand ← g.unary
    return .unary op operand (t.span.cover operand.span)
  | none =>
    if t.isSymbol .openParen then
      match ← attempt (castExpression g) with
      | some cast => return cast
      | none => trailers g (← primary g)
    else trailers g (← primary g)

/-! ## Binary operators -/

/-- The binary operator that begins here, and how many tokens it takes. Two
    angle brackets that touch are a shift. -/
def binaryOperator? (t next : Token) : Option (BinaryOp × Nat) :=
  if t.isWord "is" then some (.isType, 1)
  else if t.isWord "as" then some (.asType, 1)
  else
    match t.kind with
    | .symbol s =>
      if s = .greater && next.isSymbol .greater && next.span.start = t.span.stop then
        some (.shiftRight, 2)
      else (BinaryOp.ofSymbol? s).map (·, 1)
    | _ => none

/-- A type or pattern on the right of `is` or `as`. A name behind the type is
    taken with it. -/
def typePattern (g : Grammar) : Parse Expr := do
  let start ← here
  let _ ← eatWord "not"
  let t ← peek
  if t.isLiteral || t.isAnyWord ["null", "true", "false"] then primary g
  else if t.isSymbol .openBrace then
    let braces ← skipGroup
    return .typeName "\x7b \x7d" (start.cover braces)
  else
    let type ← typeName
    if (← peek).isName then
      let _ ← advance
    return .typeName type (start.cover (← last))

/-- The operators that follow the operand `left` and bind at least as tightly as
    `least`, with their right operands. -/
def operandsWithin (g : Grammar) : Nat → Nat → Expr → Parse Expr
  | 0, _, left => pure left
  | steps + 1, least, left => do
    match binaryOperator? (← peek) (← peekAt 1) with
    | none => return left
    | some (op, width) =>
      if op.precedence < least then return left
      let _ ← advance
      if width = 2 then
        let _ ← advance
      let right ← (do
        if op.testsType then typePattern g
        else operandsWithin g steps op.rightMin (← g.unary))
      operandsWithin g steps least (.binary op left right (left.span.cover right.span))

/-- Operands joined by operators that bind at least as tightly as `least`. -/
def operands (g : Grammar) (least : Nat) : Parse Expr := do
  let left ← g.unary
  bounded (operandsWithin g · least left)

/-- Operands joined by operators, and a choice between two values behind a
    question mark. -/
def conditional (g : Grammar) : Parse Expr := do
  let condition ← operands g 1
  if ← eat .question then
    let whenTrue ← g.assignment
    let _ ← expect .colon
    let whenFalse ← g.assignment
    return .conditional condition whenTrue whenFalse (condition.span.cover whenFalse.span)
  else return condition

/-! ## Lambdas -/

/-- Whether an arrow follows the parenthesis that closes `depth` open ones. -/
def arrowFollows : Nat → List Token → Bool
  | _, [] => false
  | depth, t :: ts =>
    if t.isSymbol .openParen then arrowFollows (depth + 1) ts
    else if t.isSymbol .closeParen then
      match depth with
      | outer + 2 => arrowFollows (outer + 1) ts
      | _ => ts.head?.any (·.isSymbol .arrow)
    else arrowFollows depth ts

/-- The names of a parameter list up to its closing parenthesis, the token taken
    last and the tokens behind it. Of each parameter the last name outside
    brackets counts; `current` is the one seen so far. -/
def lambdaNames : Nat → Option String → Span → List Token → List String × Span × List Token
  | _, _, last, [] => ([], last, [])
  | depth, current, _, t :: ts =>
    if t.isAnySymbol [.openParen, .less, .openBracket] then
      lambdaNames (depth + 1) current t.span ts
    else if t.isAnySymbol [.closeParen, .greater, .closeBracket] && 0 < depth then
      lambdaNames (depth - 1) current t.span ts
    else if depth = 0 && t.isSymbol .closeParen then (current.toList, t.span, ts)
    else if depth = 0 && t.isSymbol .comma then
      let (names, rest) := lambdaNames depth none t.span ts
      (current.toList ++ names, rest)
    else if depth = 0 && t.isIdentifier then lambdaNames depth (some t.text) t.span ts
    else lambdaNames depth current t.span ts

/-- The parameters of a lambda, if one begins here; else nothing is taken. -/
def lambdaParameters? : Parse (Option (List String)) := do
  let start ← cursor
  let next ← peekAt 1
  if (← atWord? "async") && (next.isIdentifier || next.isSymbol .openParen) then
    let _ ← advance
  let c ← cursor
  if c.peek.isName && (c.peekAt 1).isSymbol .arrow then
    let _ ← advance
    return some [c.peek.text]
  else if c.peek.isSymbol .openParen && arrowFollows 0 c.rest then
    let (names, last, rest) := lambdaNames 0 none c.peek.span c.next.rest
    rewind { c with last, rest }
    return some names
  else
    rewind start
    return none

/-- A lambda, if one begins here. -/
def lambda? (g : Grammar) : Parse (Option Expr) := do
  let start ← here
  match ← lambdaParameters? with
  | none => return none
  | some parameters =>
    let _ ← expect .arrow
    if ← at? .openBrace then
      let body ← skipGroup
      return some (.blockLambda parameters body (start.cover (← last)))
    else
      let body ← g.assignment
      return some (.lambda parameters body (start.cover (← last)))

/-! ## Assignments -/

/-- A lambda, an assignment or a conditional expression. -/
def assignmentOf (g : Grammar) : Parse Expr := do
  match ← lambda? g with
  | some e => return e
  | none =>
    let target ← conditional g
    let t ← peek
    let op? := match t.kind with
      | .symbol s => AssignOp.ofSymbol? s
      | _ => none
    match op? with
    | none => return target
    | some op =>
      let _ ← advance
      let value ← g.assignment
      return .assign op target value (target.span.cover value.span)

end Parse

/-- The grammar with so many levels of nesting still allowed. -/
def Grammar.within : Nat → Grammar
  | 0 => { assignment := Parse.tooDeep, unary := Parse.tooDeep }
  | levels + 1 =>
    let deeper := Grammar.within levels
    { assignment := Parse.assignmentOf deeper, unary := Parse.unaryOf deeper }

end GatewayPolicy
