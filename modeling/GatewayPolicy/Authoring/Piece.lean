import GatewayPolicy.Authoring.Token
import GatewayPolicy.Text.CharClass

/-! # Cutting a text into pieces

  A text is a sequence of pieces, each a token or trivia: blanks, comments and
  directives. Cutting works on characters alone and knows nothing of places.

  - `Extent` says how many characters a piece takes, and what is wrong if the
    piece does not end well.
  - `measure` looks at the front of a text and gives the extent of its first
    piece.
  - `cut` gives all pieces. Their characters, joined, are the text again, up to
    the first piece that does not end well.
-/

namespace GatewayPolicy

open Text

/-! ## Faults -/

/-- What is wrong with a piece. -/
inductive LexicalFault where
  | openComment
  | openString
  | openVerbatim
  | openInterpolation
  | openCharacter
  | malformedInterpolation
  | unexpected (c : Char)
  deriving DecidableEq, Repr, Inhabited

/-- The wording of a fault. -/
def LexicalFault.message : LexicalFault → String
  | openComment => "Unterminated block comment"
  | openString => "Unterminated string literal"
  | openVerbatim => "Unterminated verbatim string literal"
  | openInterpolation => "Unterminated interpolated string"
  | openCharacter => "Unterminated character literal"
  | malformedInterpolation => "Malformed interpolated string"
  | unexpected c => s!"Unexpected character '{c}'"

/-- How many characters a piece takes, and its fault if it has one. -/
structure Extent where
  size : Nat
  fault : Option LexicalFault := none
  deriving DecidableEq, Repr, Inhabited

/-- The same extent, after `n` characters more. -/
def Extent.after (n : Nat) (e : Extent) : Extent := { e with size := n + e.size }

@[simp] theorem Extent.after_size (n : Nat) (e : Extent) : (e.after n).size = n + e.size := rfl

@[simp] theorem Extent.after_fault (n : Nat) (e : Extent) : (e.after n).fault = e.fault := rfl

/-! ## Comments and literals, each measured behind its opening -/

/-- A block comment. -/
def commentExtent : List Char → Extent
  | [] => { size := 0, fault := some .openComment }
  | c :: cs =>
    if c = '*' && cs.head? = some '/' then { size := 2 }
    else (commentExtent cs).after 1

/-- A literal on one line, up to `close`. A backslash takes the next character
    with it, whatever that is. -/
def quotedExtent (close : Char) (fault : LexicalFault) : List Char → Extent
  | [] => { size := 0, fault }
  | [c] => if c = close then { size := 1 } else { size := 1, fault }
  | c :: d :: cs =>
    if c = '\\' then (quotedExtent close fault cs).after 2
    else if c = close then { size := 1 }
    else if c = '\n' then { size := 1, fault }
    else (quotedExtent close fault (d :: cs)).after 1

/-- A verbatim string, in which a quote is written twice. -/
def verbatimExtent : List Char → Extent
  | [] => { size := 0, fault := some .openVerbatim }
  | [c] => if c = '"' then { size := 1 } else { size := 1, fault := some .openVerbatim }
  | c :: d :: cs =>
    if c = '"' then
      if d = '"' then (verbatimExtent cs).after 2 else { size := 1 }
    else (verbatimExtent (d :: cs)).after 1

/-- Where one stands in an interpolated string. -/
inductive Interpolation where
  /-- In its text. -/
  | text
  /-- In code between braces, `depth` braces deeper than the first. -/
  | hole (depth : Nat)
  /-- In a literal inside such code. -/
  | literal (depth : Nat) (close : Char)
  deriving DecidableEq, Repr

/-- The fault of a literal inside an interpolated string that does not end. -/
def openLiteral (close : Char) : LexicalFault :=
  if close = '"' then .openString else .openCharacter

/-- An interpolated string. In its text a brace is written twice, and a quote
    twice when it is verbatim; otherwise a backslash takes the next character
    with it and the text stays on one line. -/
def interpolatedExtent (verbatim : Bool) : Interpolation → List Char → Extent
  | .literal _ close, [] => { size := 0, fault := some (openLiteral close) }
  | _, [] => { size := 0, fault := some .openInterpolation }
  | .text, c :: cs =>
    let takesNext : Bool :=
      (c = '\x7b' && cs.head? = some '\x7b') ||
      (c = '"' && verbatim && cs.head? = some '"') ||
      (c = '\\' && !verbatim)
    if takesNext then
      match cs with
      | [] => { size := 1, fault := some .openInterpolation }
      | _ :: rest => (interpolatedExtent verbatim .text rest).after 2
    else if c = '\x7b' then (interpolatedExtent verbatim (.hole 0) cs).after 1
    else if c = '"' then { size := 1 }
    else if c = '\n' && !verbatim then { size := 1, fault := some .openInterpolation }
    else (interpolatedExtent verbatim .text cs).after 1
  | .hole depth, c :: cs =>
    let next : Interpolation :=
      if c = '\x7b' then .hole (depth + 1)
      else if c = '\x7d' then
        match depth with
        | 0 => .text
        | outer + 1 => .hole outer
      else if c = '"' || c = '\'' then .literal depth c
      else .hole depth
    (interpolatedExtent verbatim next cs).after 1
  | .literal depth close, c :: cs =>
    if c = '\\' then
      match cs with
      | [] => { size := 1, fault := some (openLiteral close) }
      | _ :: rest => (interpolatedExtent verbatim (.literal depth close) rest).after 2
    else if c = close then (interpolatedExtent verbatim (.hole depth) cs).after 1
    else if c = '\n' then { size := 1, fault := some (openLiteral close) }
    else (interpolatedExtent verbatim (.literal depth close) cs).after 1

/-! ## Numbers -/

/-- How many characters at the front satisfy `p`. -/
def countWhile (p : Char → Bool) (cs : List Char) : Nat := (cs.takeWhile p).length

/-- Digits, which may be grouped by underscores. -/
def isGrouped (c : Char) : Bool := c.isDigit || c = '_'

/-- Hexadecimal digits, which may be grouped by underscores. -/
def isGroupedHex (c : Char) : Bool :=
  c.isDigit || ('a' ≤ c && c ≤ 'f') || ('A' ≤ c && c ≤ 'F') || c = '_'

/-- Letters that say how wide an integer is. -/
def isIntegerSuffix (c : Char) : Bool := ['u', 'U', 'l', 'L'].contains c

/-- Letters that make a number real. -/
def isRealSuffix (c : Char) : Bool := ['f', 'F', 'd', 'D', 'm', 'M'].contains c

/-- The length of a fraction, its point included. -/
def fractionSize : List Char → Nat
  | '.' :: d :: cs => if d.isDigit then 1 + countWhile isGrouped (d :: cs) else 0
  | _ => 0

/-- The length of an exponent, its letter and sign included. -/
def exponentSize : List Char → Nat
  | [] => 0
  | e :: cs =>
    if e = 'e' || e = 'E' then
      let sign := if cs.head? = some '+' || cs.head? = some '-' then 1 else 0
      let digits := countWhile Char.isDigit (cs.drop sign)
      if digits = 0 then 0 else 1 + sign + digits
    else 0

/-- The length and kind of a decimal number. -/
def decimalSize (cs : List Char) : Nat × TokenKind :=
  let whole := countWhile isGrouped cs
  let fraction := fractionSize (cs.drop whole)
  let exponent := exponentSize (cs.drop (whole + fraction))
  let size := whole + fraction + exponent
  let rest := cs.drop size
  if rest.head?.any isRealSuffix then (size + 1, .real)
  else
    let kind : TokenKind := if fraction = 0 && exponent = 0 then .integer else .real
    (size + countWhile isIntegerSuffix rest, kind)

/-- The length and kind of a number. -/
def numberSize (cs : List Char) : Nat × TokenKind :=
  if cs.head? = some '0' && (cs.drop 1).head?.any ['x', 'X', 'b', 'B'].contains then
    let digits := countWhile isGroupedHex (cs.drop 2)
    (2 + digits + countWhile isIntegerSuffix (cs.drop (2 + digits)), .integer)
  else decimalSize cs

/-! ## Pieces -/

/-- What a piece is: the kind of a token, or `none` for anything else. -/
abbrev PieceKind := Option TokenKind

/-- The first piece of the text `c :: cs`, when it is trivia. -/
def measureTrivia? (c : Char) (cs : List Char) : Option Extent :=
  if isBlank c || c = '\uFEFF' then some { size := 1 }
  else if c = '#' || (c = '/' && cs.head? = some '/') then
    some { size := countWhile (· ≠ '\n') (c :: cs) }
  else if c = '/' && cs.head? = some '*' then some ((commentExtent (cs.drop 1)).after 2)
  else none

/-- An interpolated string, led by any run of `$` and `@`. -/
def measureInterpolated (c : Char) (cs : List Char) : Extent :=
  let verbatim := c = '@' || cs.head? = some '@'
  let lead := countWhile (fun d => d = '$' || d = '@') (c :: cs)
  match (c :: cs).drop lead with
  | [] => { size := lead, fault := some .malformedInterpolation }
  | q :: body =>
    if q = '"' then (interpolatedExtent verbatim .text body).after (lead + 1)
    else { size := lead + 1, fault := some .malformedInterpolation }

/-- The first piece of the text `c :: cs`, when it is no trivia. -/
def measureToken (c : Char) (cs : List Char) : PieceKind × Extent :=
  let next (p : Char → Bool) : Bool := cs.head?.any p
  if c = '"' then (some .string, (quotedExtent '"' .openString cs).after 1)
  else if c = '@' && next (· = '"') then
    (some .verbatimString, (verbatimExtent (cs.drop 1)).after 2)
  else if (c = '$' || c = '@') && next (['"', '$', '@'].contains ·) then
    (some .interpolatedString, measureInterpolated c cs)
  else if c = '@' && next startsName then
    (some .identifier, { size := 1 + countWhile continuesName cs })
  else if c = '\'' then (some .character, (quotedExtent '\'' .openCharacter cs).after 1)
  else if c.isDigit || (c = '.' && next Char.isDigit) then
    let (size, kind) := numberSize (c :: cs)
    (some kind, { size })
  else if startsName c then (some .identifier, { size := countWhile continuesName (c :: cs) })
  else
    match Symbol.all.find? fun s => s.text.toList.isPrefixOf (c :: cs) with
    | some s => (some (.symbol s), { size := s.text.length })
    | none => (none, { size := 1, fault := some (.unexpected c) })

/-- The kind and extent of the first piece of the text `c :: cs`. -/
def measure (c : Char) (cs : List Char) : PieceKind × Extent :=
  match measureTrivia? c cs with
  | some extent => (none, extent)
  | none => measureToken c cs

/-- A piece of a text. -/
structure Piece where
  kind : PieceKind
  chars : List Char
  deriving DecidableEq, Repr, Inhabited

/-- Whether a piece is trivia. -/
def Piece.isTrivia (p : Piece) : Bool := p.kind.isNone

/-- A text cut into pieces, up to the first one that does not end well. -/
structure Cut where
  pieces : List Piece
  /-- The fault of the first piece that does not end well, and the characters
      it took. -/
  broken : Option (LexicalFault × List Char) := none
  deriving DecidableEq, Repr, Inhabited

/-- Puts a piece in front. -/
def Cut.push (p : Piece) (c : Cut) : Cut := { c with pieces := p :: c.pieces }

/-- Cuts a text whose first `skip` characters belong to a piece already taken. -/
def cutAfter : Nat → List Char → Cut
  | _, [] => { pieces := [] }
  | skip + 1, _ :: cs => cutAfter skip cs
  | 0, c :: cs =>
    let (kind, extent) := measure c cs
    let chars := (c :: cs).take extent.size
    match extent.fault with
    | some fault => { pieces := [], broken := some (fault, chars) }
    | none => (cutAfter (extent.size - 1) cs).push { kind, chars }

/-- Cuts a text into pieces. -/
def cut (text : String) : Cut := cutAfter 0 text.toList

end GatewayPolicy
