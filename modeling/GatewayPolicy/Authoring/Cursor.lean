import GatewayPolicy.Authoring.SyntaxError

/-! # Reading tokens

  A `Cursor` stands between two tokens of a file. A `Parse` takes tokens from
  it and gives a value, or a syntax error.

  Two things outlive an error. The cursor does not: whoever goes on after an
  error starts again where they stood. The mark that code was nested too deeply
  does: it is kept in `Nesting` even when the attempt that set it is given up,
  because such a file is refused as a whole.

  - `Parse.attempt` and `Parse.observe` go on after an error.
  - `Parse.bounded` gives a loop as many steps as there are tokens left.
-/

namespace GatewayPolicy

/-! ## Cursors -/

/-- A place between two tokens. -/
structure Cursor where
  /-- The span of the token taken last; at first, that of the first token. -/
  last : Span
  /-- The tokens not yet taken. -/
  rest : List Token
  /-- The span of the end of the file. -/
  stop : Span
  deriving DecidableEq, Repr, Inhabited

namespace Cursor

/-- The beginning of a file with these tokens. -/
def start (tokens : List Token) (stop : Span) : Cursor :=
  { last := (tokens.head?.map (·.span)).getD stop, rest := tokens, stop }

/-- The token `n` places ahead; the end of the file stays ahead forever. -/
def peekAt (c : Cursor) (n : Nat) : Token := (c.rest[n]?).getD (.eof c.stop)

/-- The next token. -/
def peek (c : Cursor) : Token := c.rest.head?.getD (.eof c.stop)

/-- The cursor behind the next token; the end of the file is never passed. -/
def next (c : Cursor) : Cursor :=
  match c.rest with
  | [] => c
  | t :: ts => { c with last := t.span, rest := ts }

/-- The cursor behind the tokens at the front that satisfy `p`. -/
def skipWhile (p : Token → Bool) (c : Cursor) : Cursor :=
  { c with
    last := ((c.rest.takeWhile p).getLast?.map (·.span)).getD c.last
    rest := c.rest.dropWhile p }

/-- The tokens between this cursor and a later one. -/
def tokensTo (c later : Cursor) : List Token := c.rest.take (c.rest.length - later.rest.length)

end Cursor

/-! ## Parses -/

/-- How deeply code may be nested, and where it was first nested too deeply. -/
structure Nesting where
  limit : Nat
  exceeded : Option Span := none
  deriving DecidableEq, Repr, Inhabited

/-- The outcome of a parse. -/
inductive Step (α : Type) where
  | ok (value : α) (cursor : Cursor) (nesting : Nesting)
  | fail (error : SyntaxError) (nesting : Nesting)

/-- Takes tokens and gives a value or a syntax error. -/
def Parse (α : Type) : Type := Cursor → Nesting → Step α

namespace Parse

variable {α β : Type}

/-- Gives a value and takes nothing. -/
def pure (a : α) : Parse α := fun c n => .ok a c n

/-- One parse after another. -/
def bind (p : Parse α) (f : α → Parse β) : Parse β := fun c n =>
  match p c n with
  | .ok a c n => f a c n
  | .fail e n => .fail e n

instance : Monad Parse where
  pure := Parse.pure
  bind := Parse.bind

/-- Fails with an error. -/
def throw (e : SyntaxError) : Parse α := fun _ n => .fail e n

/-- The cursor where one stands. -/
def cursor : Parse Cursor := fun c n => .ok c c n

/-- Goes back to an earlier cursor. -/
def rewind (earlier : Cursor) : Parse Unit := fun _ n => .ok () earlier n

/-- Whether code was nested too deeply so far. -/
def exceeded : Parse Bool := fun c n => .ok n.exceeded.isSome c n

/-- The outcome of a parse as a value; an error takes nothing. -/
def observe (p : Parse α) : Parse (Except SyntaxError α) := fun c n =>
  match p c n with
  | .ok a c n => .ok (.ok a) c n
  | .fail e n => .ok (.error e) c n

/-- The value of a parse, or nothing taken if it fails. -/
def attempt (p : Parse α) : Parse (Option α) := fun c n =>
  match p c n with
  | .ok a c n => .ok (some a) c n
  | .fail _ n => .ok none c n

/-- Gives a loop as many steps as there are tokens left. -/
def bounded (loop : Nat → Parse α) : Parse α := fun c n => loop c.rest.length c n

/-- Refuses code that is nested too deeply: marks the first such place and
    fails there. -/
def tooDeep : Parse α := fun c n =>
  let span := n.exceeded.getD c.peek.span
  .fail { fault := .tooDeep n.limit, span } { n with exceeded := some span }

/-! ## Single tokens -/

/-- The next token. -/
def peek : Parse Token := fun c n => .ok c.peek c n

/-- The token `k` places ahead. -/
def peekAt (k : Nat) : Parse Token := fun c n => .ok (c.peekAt k) c n

/-- The place of the next token. -/
def here : Parse Span := fun c n => .ok c.peek.span c n

/-- The place of the token taken last. -/
def last : Parse Span := fun c n => .ok c.last c n

/-- Takes the next token. -/
def advance : Parse Token := fun c n => .ok c.peek c.next n

/-- Takes the tokens at the front that satisfy `p`. -/
def takeWhile (p : Token → Bool) : Parse (List Token) := fun c n =>
  .ok (c.rest.takeWhile p) (c.skipWhile p) n

/-- Whether the next token is a symbol. -/
def at? (s : Symbol) : Parse Bool := fun c n => .ok (c.peek.isSymbol s) c n

/-- Whether the next token is one of some symbols. -/
def atAny? (ss : List Symbol) : Parse Bool := fun c n => .ok (c.peek.isAnySymbol ss) c n

/-- Whether the next token is a word. -/
def atWord? (w : String) : Parse Bool := fun c n => .ok (c.peek.isWord w) c n

/-- Takes the next token if it is a symbol, and says whether it was. -/
def eat (s : Symbol) : Parse Bool := fun c n =>
  if c.peek.isSymbol s then .ok true c.next n else .ok false c n

/-- Takes the next token if it is a word, and says whether it was. -/
def eatWord (w : String) : Parse Bool := fun c n =>
  if c.peek.isWord w then .ok true c.next n else .ok false c n

/-- Fails because something else was looked for here. -/
def expected (what : Expectation) : Parse α := fun c n =>
  let found := if c.peek.isEof then none else some c.peek.text
  .fail { fault := .expected what found, span := c.peek.span } n

/-- Takes a symbol, which has to be next. -/
def expect (s : Symbol) : Parse Token := fun c n =>
  if c.peek.isSymbol s then .ok c.peek c.next n else expected (.symbol s) c n

/-- Takes a word, which has to be next. -/
def expectWord (w : String) : Parse Token := fun c n =>
  if c.peek.isWord w then .ok c.peek c.next n else expected (.word w) c n

/-- Takes a name, which has to be next. -/
def expectName : Parse Token := fun c n =>
  if c.peek.isName then .ok c.peek c.next n else expected .identifier c n

/-- Fails unless a symbol is next; takes nothing. -/
def require (s : Symbol) : Parse Unit := fun c n =>
  if c.peek.isSymbol s then .ok () c n else expected (.symbol s) c n

/-! ## Lists -/

/-- Items with commas between them, at least one; `steps` bounds the commas. -/
def commaListWithin (item : Parse α) : Nat → Parse (List α)
  | 0 => do return [← item]
  | steps + 1 => do
    let first ← item
    if ← eat .comma then return first :: (← commaListWithin item steps)
    else return [first]

/-- Items with commas between them, at least one. -/
def commaList (item : Parse α) : Parse (List α) := bounded (commaListWithin item)

/-- Items up to a closing symbol, which is not taken, with commas between them
    and one more allowed at the end; `steps` bounds the commas. -/
def itemsWithin (close : Symbol) (item : Parse α) : Nat → Parse (List α)
  | 0 => do
    if ← at? close then return []
    return [← item]
  | steps + 1 => do
    if ← at? close then return []
    let first ← item
    if ← eat .comma then return first :: (← itemsWithin close item steps)
    else return [first]

/-- Items up to a closing symbol, which is taken; a comma may stand before it. -/
def itemsUntil (close : Symbol) (item : Parse α) : Parse (List α) := do
  let items ← bounded (itemsWithin close item)
  let _ ← expect close
  return items

end Parse

end GatewayPolicy
