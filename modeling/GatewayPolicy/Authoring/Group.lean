import GatewayPolicy.Authoring.Cursor

/-! # Skipping tokens

  Much of a file is not read token by token. A bracketed group is skipped as a
  whole, and other code is skipped up to a token at which reading can go on.

  - `closeGroup` finds the end of a group over the three kinds of brackets.
  - `skipTo` skips tokens and groups up to a token of a given kind.
-/

namespace GatewayPolicy

/-! ## Bracketed groups -/

/-- Finds the end of a group that `opening` began. The symbols that still have
    to close it are given innermost first, together with the token taken last. -/
def closeGroup (opening : Token) :
    List Symbol → Span → List Token → Except SyntaxError (Span × List Token)
  | [], last, ts => .ok (last, ts)
  | close :: _, _, [] => .error { fault := .unclosed opening.text close, span := opening.span }
  | close :: outer, _, t :: ts =>
    match t.kind with
    | .symbol s =>
      match s.closing? with
      | some inner => closeGroup opening (inner :: close :: outer) t.span ts
      | none =>
        if s = close then closeGroup opening outer t.span ts
        else if s.isClosing then
          .error { fault := .mismatched t.text close, span := t.span }
        else closeGroup opening (close :: outer) t.span ts
    | _ => closeGroup opening (close :: outer) t.span ts

/-- The symbol that closes the group a token opens. -/
def Token.closing? (t : Token) : Option Symbol :=
  match t.kind with
  | .symbol s => s.closing?
  | _ => none

/-- Whether a token opens a group. -/
def Token.isOpening (t : Token) : Bool := t.closing?.isSome

namespace Parse

/-- Skips a bracketed group, which has to be next, and gives its place. -/
def skipGroup : Parse Span := fun c n =>
  let opening := c.peek
  match opening.closing? with
  | none => .fail { fault := .noBracket opening.text, span := opening.span } n
  | some close =>
    match closeGroup opening [close] opening.span c.next.rest with
    | .ok (last, rest) => .ok (opening.span.cover last) { c with last, rest } n
    | .error e => .fail e n

/-! ## Up to a token -/

/-- Skips tokens up to one that satisfies `stop` or the end of the file; a token
    that satisfies `group` opens a group, which is skipped as a whole. -/
def skipToWithin (group stop : Token → Bool) : Nat → Parse Unit
  | 0 => pure ()
  | steps + 1 => do
    let t ← peek
    if t.isEof || stop t then return ()
    if group t then
      let _ ← skipGroup
    else
      let _ ← advance
    skipToWithin group stop steps

/-- Skips tokens up to one that satisfies `stop` or the end of the file. -/
def skipTo (group stop : Token → Bool) : Parse Unit := bounded (skipToWithin group stop)

/-- Parentheses and square brackets, but not braces. -/
def opensInline (t : Token) : Bool := t.isAnySymbol [.openParen, .openBracket]

/-- Skips up to a semicolon outside brackets, which is not taken. -/
def skipUntilSemicolon : Parse Unit := do
  skipTo Token.isOpening
    (·.isAnySymbol [.semicolon, .closeBrace, .closeParen, .closeBracket])
  require .semicolon

/-- Skips up to a semicolon outside brackets, which is taken. -/
def skipPastSemicolon : Parse Unit := do
  skipUntilSemicolon
  let _ ← advance

/-- Skips a statement that could not be read: up to and including a semicolon
    or a braced group, or up to a brace that closes the block around it. -/
def skipStatement : Parse Unit := do
  skipTo opensInline (·.isAnySymbol [.closeBrace, .openBrace, .semicolon])
  let t ← peek
  if t.isSymbol .closeBrace then return ()
  else if t.isSymbol .openBrace then
    let _ ← skipGroup
  else if t.isSymbol .semicolon then
    let _ ← advance
  else expected (.symbol .closeBrace)

/-- Skips the rest of a member that is not read. -/
def skipMember : Parse Unit := do
  skipTo opensInline (·.isAnySymbol [.semicolon, .arrow, .openBrace, .closeBrace])
  let t ← peek
  if t.isSymbol .semicolon then
    let _ ← advance
  else if t.isSymbol .arrow then skipPastSemicolon
  else if t.isSymbol .openBrace then
    let _ ← skipGroup
    if ← eat .assign then skipPastSemicolon
  else if t.isSymbol .closeBrace then expected (.symbol .semicolon)
  else expected (.symbol .closeBrace)

/-- Skips the body of a type that is not read, and a semicolon behind it. -/
def skipTypeBody : Parse Unit := do
  skipTo (fun _ => false) (·.isAnySymbol [.openBrace, .closeBrace])
  require .openBrace
  let _ ← skipGroup
  let _ ← eat .semicolon

/-- Skips the constraints of type parameters, if there are any. -/
def skipConstraints : Parse Unit := do
  if ← atWord? "where" then
    skipTo (·.isSymbol .openParen) (·.isAnySymbol [.openBrace, .semicolon, .arrow])

/-! ## Type parameters -/

/-- The tokens behind `depth` closing angle brackets, and the last one of them. -/
def closeAngles : Nat → Span → List Token → Option (Span × List Token)
  | 0, last, ts => some (last, ts)
  | _ + 1, _, [] => none
  | depth + 1, _, t :: ts =>
    if t.isSymbol .less then closeAngles (depth + 2) t.span ts
    else if t.isSymbol .greater then closeAngles depth t.span ts
    else closeAngles (depth + 1) t.span ts

/-- Skips type parameters in angle brackets, which have to be next. -/
def skipAngles : Parse Unit := do
  let opening ← expect .less
  let c ← cursor
  match closeAngles 1 opening.span c.rest with
  | some (last, rest) => rewind { c with last, rest }
  | none => throw { fault := .unclosedAngle, span := opening.span }

end Parse

end GatewayPolicy
