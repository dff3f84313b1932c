import GatewayPolicy.Authoring.Piece

/-! # Tokens of a text, with their places

  Scanning cuts a text into pieces and gives every token its place. Offsets
  count bytes, columns count characters, and only a line feed starts a new line.

  - `Place.after` moves a place over one character.
  - `tokenize` gives the tokens of a text, the end of the text last, or the
    first fault.
-/

namespace GatewayPolicy

/-! ## Places -/

/-- A place between two characters of a text. -/
structure Place where
  offset : Nat
  line : Nat
  column : Nat
  deriving DecidableEq, Repr, Inhabited

namespace Place

/-- The beginning of a text. -/
def start : Place := { offset := 0, line := 1, column := 1 }

/-- The place after one character more. -/
def after (p : Place) (c : Char) : Place :=
  if c = '\n' then { offset := p.offset + c.utf8Size, line := p.line + 1, column := 1 }
  else { offset := p.offset + c.utf8Size, line := p.line, column := p.column + 1 }

/-- The place after some characters more. -/
def afterAll (p : Place) (cs : List Char) : Place := cs.foldl after p

/-- The span of some characters that start here. Offsets of a span are words of 32 bits. -/
def span (p : Place) (cs : List Char) : Span where
  start := p.offset % UInt32.size
  stop := (p.afterAll cs).offset % UInt32.size
  line := p.line
  column := p.column

@[simp] theorem afterAll_nil (p : Place) : p.afterAll [] = p := rfl

@[simp] theorem afterAll_cons (p : Place) (c : Char) (cs : List Char) :
    p.afterAll (c :: cs) = (p.after c).afterAll cs := rfl

@[simp] theorem afterAll_append (p : Place) (cs ds : List Char) :
    p.afterAll (cs ++ ds) = (p.afterAll cs).afterAll ds := by
  simp [afterAll]

end Place

/-! ## Tokens -/

/-- The tokens among some pieces that start at a place, and the place behind
    the last piece. -/
def placeTokens : Place → List Piece → List Token × Place
  | p, [] => ([], p)
  | p, piece :: pieces =>
    let (tokens, stop) := placeTokens (p.afterAll piece.chars) pieces
    match piece.kind with
    | none => (tokens, stop)
    | some kind =>
      ({ kind, text := String.ofList piece.chars, span := p.span piece.chars } :: tokens, stop)

/-- A fault at a place. -/
structure LexicalError where
  fault : LexicalFault
  span : Span
  deriving DecidableEq, Repr, Inhabited

/-- A lexical error in words. -/
def LexicalError.text (e : LexicalError) : String :=
  s!"{e.fault.message} at line {e.span.line}"

/-- The tokens of a text and the place at its end, or its first fault. -/
def scan (text : String) : Except LexicalError (List Token × Place) :=
  let parts := cut text
  let (tokens, stop) := placeTokens Place.start parts.pieces
  match parts.broken with
  | none => .ok (tokens, stop)
  | some (fault, chars) => .error { fault, span := stop.span chars }

/-- The tokens of a text, the end of the text last, or its first fault. -/
def tokenize (text : String) : Except LexicalError (List Token) :=
  match scan text with
  | .ok (tokens, stop) => .ok (tokens ++ [.eof (stop.span [])])
  | .error e => .error e

end GatewayPolicy
