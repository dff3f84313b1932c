import GatewayPolicy.Authoring.Token

/-! # What literals stand for

  A literal is kept by the text it stands for, not by the text it is written
  with.

  - `decodeEscapes` reads the body of a string or character literal.
  - `undouble` reads the body of a verbatim string.
  - `digitsOf` reads a number: its digits without grouping and suffix.
-/

namespace GatewayPolicy

/-! ## Escapes -/

/-- The value of a hexadecimal digit. -/
def hexDigit? (c : Char) : Option Nat :=
  if c.isDigit then some (c.toNat - '0'.toNat)
  else if 'a' ≤ c && c ≤ 'f' then some (c.toNat - 'a'.toNat + 10)
  else if 'A' ≤ c && c ≤ 'F' then some (c.toNat - 'A'.toNat + 10)
  else none

/-- The value of some hexadecimal digits, read after `value`. -/
def hexValue? : Nat → List Char → Option Nat
  | value, [] => some value
  | value, c :: cs =>
    match hexDigit? c with
    | some d => hexValue? (16 * value + d) cs
    | none => none

/-- The character that a hexadecimal number names, if it names one. The number
    may be led by a plus sign. -/
def scalar? (cs : List Char) : Option Char :=
  let digits := if cs.head? = some '+' then cs.drop 1 else cs
  if digits.isEmpty then none
  else
    match hexValue? 0 digits with
    | some n => if n.isValidChar then some (Char.ofNat n) else none
    | none => none

/-- What a backslash, a `u` and the characters `cs` stand for. -/
def unicodeEscape (cs : List Char) : List Char :=
  match scalar? cs with
  | some c => [c]
  | none => '\\' :: 'u' :: cs

/-- What a backslash and another character stand for. -/
def simpleEscape (c : Char) : Char :=
  if c = 'n' then '\n'
  else if c = 't' then '\t'
  else if c = 'r' then '\r'
  else if c = '0' then '\x00'
  else if c = 'a' then '\x07'
  else if c = 'b' then '\x08'
  else if c = 'f' then '\x0c'
  else if c = 'v' then '\x0b'
  else c

/-- The text that the body of a literal stands for. A `u` after a backslash
    takes the next four characters, or as many as there are. -/
def decodeEscapes : List Char → List Char
  | [] => []
  | '\\' :: [] => ['\\']
  | '\\' :: 'u' :: a :: b :: c :: d :: cs => unicodeEscape [a, b, c, d] ++ decodeEscapes cs
  | '\\' :: 'u' :: cs => unicodeEscape cs
  | '\\' :: c :: cs => simpleEscape c :: decodeEscapes cs
  | c :: cs => c :: decodeEscapes cs

/-- The text of a verbatim body, in which a quote is written twice. -/
def undouble : List Char → List Char
  | [] => []
  | '"' :: '"' :: cs => '"' :: undouble cs
  | c :: cs => c :: undouble cs

/-! ## Texts of literals -/

/-- The text that a string or character literal stands for. -/
def stringOf (written : String) : String :=
  String.ofList (decodeEscapes ((written.toList.drop 1).dropLast))

/-- The text that a verbatim string stands for. -/
def verbatimOf (written : String) : String :=
  String.ofList (undouble ((written.toList.drop 2).dropLast))

/-- Letters that may follow the digits of a number; those of a real number are
    digits of a hexadecimal one. -/
def isNumberSuffix (hexadecimal : Bool) (c : Char) : Bool :=
  ['u', 'U', 'l', 'L'].contains c ||
    (!hexadecimal && ['f', 'F', 'd', 'D', 'm', 'M'].contains c)

/-- The digits of a number, without underscores and suffix. -/
def digitsOf (written : String) : String :=
  let digits := written.toList.filter (· ≠ '_')
  let hexadecimal := "0x".toList.isPrefixOf digits || "0X".toList.isPrefixOf digits
  String.ofList (digits.reverse.dropWhile (isNumberSuffix hexadecimal)).reverse

end GatewayPolicy
