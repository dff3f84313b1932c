import GatewayPolicy.Authoring.Declaration
import GatewayPolicy.Authoring.Expression

/-! # Reading statements

  Statements nest like expressions do, so a statement is a function of the
  parses one level deeper: `expression` for its expressions and `statement` for
  the statements inside it.

  A statement that cannot be read never hides the ones after it. It is skipped
  and kept as malformed, unless code was nested too deeply, which fails the file.

  - `Parse.recovering` reads a statement or skips it.
  - `Parse.statementOf` reads one statement of any kind.
  - `CodeGrammar.within` ties expressions and statements together.
-/

namespace GatewayPolicy

namespace Parse

/-- A statement, or a malformed one in its place. -/
def recovering (statement : Parse Stmt) : Parse Stmt := do
  let start ← cursor
  match ← observe statement with
  | .ok s => return s
  | .error e =>
    if ← exceeded then throw e
    skipStatement
    let now ← cursor
    let place := start.peek.span
    return .malformed e.fault
      (if now.rest.length = start.rest.length then place else place.cover now.last)

/-! ## Blocks -/

/-- Statements up to the brace that closes the block `opening` began. -/
def statementsWithin (opening : Span) (statement : Parse Stmt) : Nat → Parse (List Stmt)
  | 0 => do
    if ← at? .closeBrace then return []
    throw { fault := .unclosed Symbol.openBrace.text .closeBrace, span := opening }
  | steps + 1 => do
    let t ← peek
    if t.isSymbol .closeBrace then return []
    if t.isEof then
      throw { fault := .unclosed Symbol.openBrace.text .closeBrace, span := opening }
    let first ← recovering statement
    return first :: (← statementsWithin opening statement steps)

/-- Statements in braces, and the place of the braces. -/
def block (statement : Parse Stmt) : Parse (List Stmt × Span) := do
  let opening ← expect .openBrace
  let statements ← bounded (statementsWithin opening.span statement)
  let close ← advance
  return (statements, opening.span.cover close.span)

/-! ## Statements kept by their kind -/

/-- A statement kept by its kind, from `start` to where reading has come. -/
def otherFrom (which : OtherStatement) (start : Span) : Parse Stmt := do
  return .other which (start.cover (← last))

/-- A statement up to its semicolon, kept by its kind. -/
def jump (which : OtherStatement) : Parse Stmt := do
  let start ← here
  let _ ← advance
  skipPastSemicolon
  otherFrom which start

/-- A group in parentheses, which has to be next. -/
def parenGroup : Parse Unit := do
  require .openParen
  let _ ← skipGroup

/-- A loop or lock: a group in parentheses and a statement. -/
def guarded (which : OtherStatement) (statement : Parse Stmt) : Parse Stmt := do
  let start ← here
  let _ ← advance
  parenGroup
  let _ ← recovering statement
  otherFrom which start

/-- `using` with a group and a statement, or up to a semicolon. -/
def usingStatement (statement : Parse Stmt) : Parse Stmt := do
  let start ← here
  let _ ← advance
  if ← at? .openParen then
    let _ ← skipGroup
    let _ ← recovering statement
  else skipPastSemicolon
  otherFrom .uses start

/-- `do` with its statement and condition. -/
def doStatement (statement : Parse Stmt) : Parse Stmt := do
  let start ← here
  let _ ← advance
  let _ ← recovering statement
  let _ ← expectWord "while"
  parenGroup
  let _ ← expect .semicolon
  otherFrom .doLoop start

/-- `switch` with its cases skipped. -/
def switchStatement : Parse Stmt := do
  let start ← here
  let _ ← advance
  parenGroup
  require .openBrace
  let _ ← skipGroup
  otherFrom .switches start

/-- The clauses that catch errors. -/
def catchesWithin (statement : Parse Stmt) : Nat → Parse Unit
  | 0 => pure ()
  | steps + 1 => do
    if ← eatWord "catch" then
      if ← at? .openParen then
        let _ ← skipGroup
      if ← eatWord "when" then
        let _ ← skipGroup
      let _ ← block statement
      catchesWithin statement steps

/-- `try` with its clauses. -/
def tryStatement (statement : Parse Stmt) : Parse Stmt := do
  let start ← here
  let _ ← advance
  let _ ← block statement
  bounded (catchesWithin statement)
  if ← eatWord "finally" then
    let _ ← block statement
  otherFrom .tries start

/-! ## Statements with parts -/

/-- `if` with its branches. -/
def ifStatement (expression : Parse Expr) (statement : Parse Stmt) : Parse Stmt := do
  let start ← here
  let _ ← advance
  let _ ← expect .openParen
  let condition ← expression
  let _ ← expect .closeParen
  let thenBranch ← recovering statement
  let elseBranch ← (do
    if ← eatWord "else" then return some (← recovering statement) else return none)
  return .conditional condition thenBranch elseBranch (start.cover (← last))

/-- The rest of a function inside a method, behind its name. -/
def localFunction (start : Span) : Parse Stmt := do
  if ← at? .less then skipAngles
  parenGroup
  skipConstraints
  if ← at? .openBrace then
    let _ ← skipGroup
  else if ← at? .arrow then skipPastSemicolon
  else expected (.symbol .openBrace)
  otherFrom .localFunction start

/-- A declaration of a local variable or function. -/
def localDeclaration (expression : Parse Expr) : Parse Stmt := do
  let start ← here
  let _ ← eatWord "const"
  if ← atWord? "await" then expected .typeName
  let type ← typeName
  let name ← expectName
  if ← atAny? [.openParen, .less] then localFunction start
  else
    let initializer ← (do
      if ← eat .assign then return some (← expression) else return none)
    if ← at? .comma then
      skipPastSemicolon
      return .malformed .severalVariables (start.cover (← last))
    else
      let stop ← expect .semicolon
      return .declaration type name.text initializer (start.cover stop.span)

/-- An expression and its semicolon. -/
def expressionStatement (expression : Parse Expr) : Parse Stmt := do
  let start ← here
  let e ← expression
  let stop ← expect .semicolon
  return .expression e (start.cover stop.span)

/-- A declaration if it can be read as one, else an expression. -/
def plainStatement (expression : Parse Expr) : Parse Stmt := do
  match ← attempt (localDeclaration expression) with
  | some s => return s
  | none => expressionStatement expression

/-- A statement that may begin with a keyword. -/
def wordStatement (expression : Parse Expr) (statement : Parse Stmt) (t next : Token) :
    Parse Stmt :=
  match t.text with
  | "if" => ifStatement expression statement
  | "return" => jump .returns
  | "throw" => jump .throws
  | "break" => jump .breaks
  | "continue" => jump .continues
  | "goto" => jump .jumps
  | "yield" =>
    if next.isAnyWord ["return", "break"] then jump .yields else plainStatement expression
  | "for" => guarded .forLoop statement
  | "foreach" => guarded .forEachLoop statement
  | "while" => guarded .whileLoop statement
  | "lock" => guarded .locks statement
  | "using" => usingStatement statement
  | "do" => doStatement statement
  | "switch" => switchStatement
  | "try" => tryStatement statement
  | _ => plainStatement expression

/-- A statement. -/
def statementOf (expression : Parse Expr) (statement : Parse Stmt) : Parse Stmt := do
  let t ← peek
  if t.isSymbol .openBrace then
    let (statements, span) ← block statement
    return .block statements span
  else if t.isSymbol .semicolon then
    let _ ← advance
    otherFrom .empty t.span
  else if t.isIdentifier then wordStatement expression statement t (← peekAt 1)
  else plainStatement expression

/-- A statement with so many levels of nesting still allowed. -/
def statementWithin : Nat → Cursor → Nesting → Step Stmt
  | 0 => tooDeep
  | levels + 1 => fun c n =>
    statementOf (Grammar.within levels).assignment (fun c n => statementWithin levels c n) c n

end Parse

/-- The productions of code in a class. -/
structure CodeGrammar extends Grammar where
  statement : Parse Stmt

/-- The productions of code nested at most `limit` levels deep. -/
def CodeGrammar.within (limit : Nat) : CodeGrammar :=
  { Grammar.within limit with statement := Parse.statementWithin limit }

end GatewayPolicy
