import GatewayPolicy.Authoring.Declaration

/-! # Configuration values

  What an operation is told comes as values: a text, fields with names, or a
  list. A value remembers where it was written.

  - `Value.text?`, `Value.fields` and `Value.elements` look at the three shapes.
  - `Value.field?` finds a field; the first of a name counts.
-/

namespace GatewayPolicy

/-- A configuration value. -/
inductive Value where
  /-- A text, which may be inline code. -/
  | single (text : String) (span : Span)
  /-- Fields in the order they were written. -/
  | named (type : Option String) (fields : List (String × Value)) (span : Span)
  /-- Elements in the order they were written. -/
  | positional (type : Option String) (elements : List Value) (span : Span)
  deriving Inhabited

namespace Value

/-- Where a value was written. -/
def span : Value → Span
  | single _ s | named _ _ s | positional _ _ s => s

/-- The type that was written with a value. -/
def type? : Value → Option String
  | single _ _ => none
  | named type _ _ => type
  | positional type _ _ => type

/-- The type without what qualifies it. -/
def simpleType? (v : Value) : Option String := v.type?.map lastSegment

/-- The text of a value that is one. -/
def text? : Value → Option String
  | single text _ => some text
  | named .. => none
  | positional .. => none

/-- The fields of a value; other shapes have none. -/
def fields : Value → List (String × Value)
  | named _ fields _ => fields
  | single .. => []
  | positional .. => []

/-- The elements of a value; other shapes have none. -/
def elements : Value → List Value
  | positional _ elements _ => elements
  | single .. => []
  | named .. => []

/-- The first field of a name. -/
def field? (v : Value) (name : String) : Option Value :=
  (v.fields.find? (·.1 == name)).map (·.2)

/-- Where the first field of a name stands among the fields. -/
def fieldIndex? (v : Value) (name : String) : Option Nat :=
  v.fields.findIdx? (·.1 == name)

end Value

end GatewayPolicy
