/-! # Inline code

  Most values in a policy document are plain text. A value may also be code
  that the gateway runs, and such a value is led by a marker character that
  no authored text can be mistaken for.

  - `inlineExpression` wraps one expression, `inlineBlock` a statement list.
  - `stripMarker` gives the code of a marked value, without the marker.
-/

namespace GatewayPolicy

/-- The character that leads inline code. -/
def inlineMarker : Char := '\x01'

/-- Inline code that computes one expression. -/
def inlineExpression (code : String) : String :=
  String.singleton inlineMarker ++ "@(" ++ code ++ ")"

/-- Inline code that runs a statement list. -/
def inlineBlock (code : String) : String :=
  String.singleton inlineMarker ++ "@\x7b" ++ code ++ "\x7d"

/-- The value behind the marker, if the value is led by one. -/
def stripMarker (value : String) : Option String :=
  match value.toList with
  | [] => none
  | c :: cs => if c = inlineMarker then some (String.ofList cs) else none

/-- Whether a value is inline code. -/
def isInline (value : String) : Bool := (stripMarker value).isSome

end GatewayPolicy
