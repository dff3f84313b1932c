import GatewayPolicy.Source.Span

/-! # Tokens of the authoring language

  Policies are authored as classes. Their text consists of names, literals
  and symbols. Keywords are names: whether a word is reserved is decided where
  it is read, so that words such as `var` stay usable as names.

  - `Symbol` is the fixed list of punctuation and operators.
  - `reservedWords` are the words that are never plain names.
  - `Token` is a piece of the text with its kind and its place.
-/

namespace GatewayPolicy

/-! ## Symbols -/

/-- Punctuation and operators. -/
inductive Symbol where
  | shiftLeftAssign | coalesceAssign | ellipsis
  | arrow | equal | notEqual | lessEqual | greaterEqual
  | andAlso | orElse | increment | decrement
  | plusAssign | minusAssign | timesAssign | divideAssign | moduloAssign
  | andAssign | orAssign | xorAssign
  | shiftLeft | coalesce | questionDot | doubleColon
  | openBrace | closeBrace | openParen | closeParen | openBracket | closeBracket
  | semicolon | comma | dot | colon | question | assign | less | greater
  | plus | minus | star | slash | percent | bang | tilde | ampersand | bar | caret
  deriving DecidableEq, Repr, Inhabited

namespace Symbol

/-- How a symbol is spelt. -/
def text : Symbol → String
  | shiftLeftAssign => "<<="
  | coalesceAssign => "??="
  | ellipsis => "..."
  | arrow => "=>"
  | equal => "=="
  | notEqual => "!="
  | lessEqual => "<="
  | greaterEqual => ">="
  | andAlso => "&&"
  | orElse => "||"
  | increment => "++"
  | decrement => "--"
  | plusAssign => "+="
  | minusAssign => "-="
  | timesAssign => "*="
  | divideAssign => "/="
  | moduloAssign => "%="
  | andAssign => "&="
  | orAssign => "|="
  | xorAssign => "^="
  | shiftLeft => "<<"
  | coalesce => "??"
  | questionDot => "?."
  | doubleColon => "::"
  | openBrace => "\x7b"
  | closeBrace => "\x7d"
  | openParen => "("
  | closeParen => ")"
  | openBracket => "["
  | closeBracket => "]"
  | semicolon => ";"
  | comma => ","
  | dot => "."
  | colon => ":"
  | question => "?"
  | assign => "="
  | less => "<"
  | greater => ">"
  | plus => "+"
  | minus => "-"
  | star => "*"
  | slash => "/"
  | percent => "%"
  | bang => "!"
  | tilde => "~"
  | ampersand => "&"
  | bar => "|"
  | caret => "^"

/-- Every symbol, longer spellings before the shorter ones that start them. -/
def all : List Symbol :=
  [shiftLeftAssign, coalesceAssign, ellipsis, arrow, equal, notEqual, lessEqual, greaterEqual,
   andAlso, orElse, increment, decrement, plusAssign, minusAssign, timesAssign, divideAssign,
   moduloAssign, andAssign, orAssign, xorAssign, shiftLeft, coalesce, questionDot, doubleColon,
   openBrace, closeBrace, openParen, closeParen, openBracket, closeBracket, semicolon, comma,
   dot, colon, question, assign, less, greater, plus, minus, star, slash, percent, bang, tilde,
   ampersand, bar, caret]

/-- The closing bracket of an opening one. -/
def closing? : Symbol → Option Symbol
  | openParen => some closeParen
  | openBracket => some closeBracket
  | openBrace => some closeBrace
  | _ => none

/-- Whether a symbol closes a bracketed group. -/
def isClosing : Symbol → Bool
  | closeParen | closeBracket | closeBrace => true
  | _ => false

end Symbol

/-! ## Words -/

/-- Words that are never plain names. -/
def reservedWords : List String :=
  ["abstract", "as", "base", "bool", "break", "case", "catch", "class", "const", "continue",
   "default", "do", "else", "enum", "event", "false", "finally", "for", "foreach", "goto", "if",
   "in", "interface", "internal", "is", "lock", "namespace", "new", "null", "operator", "out",
   "override", "private", "protected", "public", "readonly", "ref", "return", "sealed", "static",
   "struct", "switch", "this", "throw", "true", "try", "typeof", "using", "virtual", "void",
   "while"]

/-- Whether a word is reserved. -/
def isReserved (word : String) : Bool := reservedWords.contains word

/-! ## Tokens -/

/-- What a token is. -/
inductive TokenKind where
  /-- A name or a keyword. -/
  | identifier
  | integer
  | real
  | string
  | verbatimString
  | interpolatedString
  | character
  | symbol (s : Symbol)
  /-- The end of the text. -/
  | eof
  deriving DecidableEq, Repr, Inhabited

/-- A piece of the text that means something. -/
structure Token where
  kind : TokenKind
  /-- The characters of the token, as written. -/
  text : String
  span : Span
  deriving DecidableEq, Repr, Inhabited

namespace Token

/-- The token at the end of a text. -/
def eof (span : Span) : Token := { kind := .eof, text := "", span }

/-- Whether the token is a given symbol. -/
def isSymbol (t : Token) (s : Symbol) : Bool := t.kind = .symbol s

/-- Whether the token is one of some symbols. -/
def isAnySymbol (t : Token) (ss : List Symbol) : Bool := ss.any t.isSymbol

/-- Whether the token is a given word. -/
def isWord (t : Token) (word : String) : Bool := t.kind = .identifier && t.text = word

/-- Whether the token is one of some words. -/
def isAnyWord (t : Token) (words : List String) : Bool := words.any t.isWord

/-- Whether the token is a name or a keyword. -/
def isIdentifier (t : Token) : Bool := t.kind = .identifier

/-- Whether the token is a name that is not reserved. -/
def isName (t : Token) : Bool := t.isIdentifier && !isReserved t.text

/-- Whether the token is the end of the text. -/
def isEof (t : Token) : Bool := t.kind = .eof

/-- Whether the token is a literal. -/
def isLiteral (t : Token) : Bool :=
  match t.kind with
  | .integer | .real | .string | .verbatimString | .interpolatedString | .character => true
  | .identifier | .symbol _ | .eof => false

end Token

end GatewayPolicy
