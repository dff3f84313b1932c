/-! # JSON texts

  Values as they are printed in a report for other programs: indented by two
  spaces a level, with one member a line.
-/

namespace GatewayPolicy

/-- A value of a report. -/
inductive JsonValue where
  | text (s : String)
  | number (n : Nat)
  | list (items : List JsonValue)
  | record (members : List (String × JsonValue))
  deriving Inhabited

namespace JsonValue

/-- A digit of a character's number in base sixteen. -/
def hexDigit (n : Nat) : Char :=
  if n < 10 then Char.ofNat ('0'.toNat + n) else Char.ofNat ('a'.toNat + (n - 10))

/-- A character between quotes. Controls are written by number unless they have
    a short form. -/
def escape (c : Char) : List Char :=
  if c = '"' then ['\\', '"']
  else if c = '\\' then ['\\', '\\']
  else if c = '\n' then ['\\', 'n']
  else if c = '\r' then ['\\', 'r']
  else if c = '\t' then ['\\', 't']
  else if c = '\x08' then ['\\', 'b']
  else if c = '\x0c' then ['\\', 'f']
  else if c.toNat < 32 then
    ['\\', 'u', '0', '0', hexDigit (c.toNat / 16), hexDigit (c.toNat % 16)]
  else [c]

/-- A text in quotes. -/
def quote (s : String) : String :=
  "\"" ++ String.ofList (s.toList.flatMap escape) ++ "\""

/-- A line break and the indentation of a level. -/
def newLine (level : Nat) : String := "\n" ++ String.ofList (List.replicate (2 * level) ' ')

mutual

/-- The text of a value that starts at a level. -/
def print (level : Nat) : JsonValue → String
  | text s => quote s
  | number n => toString n
  | list [] => "[]"
  | list (i :: is) =>
    "[" ++ newLine (level + 1) ++ print (level + 1) i ++ printItems (level + 1) is ++
      newLine level ++ "]"
  | record [] => "\x7b\x7d"
  | record ((name, v) :: ms) =>
    "\x7b" ++ newLine (level + 1) ++ quote name ++ ": " ++ print (level + 1) v ++
      printMembers (level + 1) ms ++ newLine level ++ "\x7d"

/-- The items of a list after the first. -/
def printItems (level : Nat) : List JsonValue → String
  | [] => ""
  | i :: is => "," ++ newLine level ++ print level i ++ printItems level is

/-- The members of a record after the first. -/
def printMembers (level : Nat) : List (String × JsonValue) → String
  | [] => ""
  | (name, v) :: ms =>
    "," ++ newLine level ++ quote name ++ ": " ++ print level v ++ printMembers level ms

end

end JsonValue

end GatewayPolicy
