import GatewayPolicy.Markup.Element
import GatewayPolicy.Policy.Argument

/-! # Rules for settings

  Most elements are described by rules: which fields of the configuration
  become which attributes, and which fields have to be there.

  - `Rule.pull` reads the fields that one rule speaks of.
  - `arrange` puts the attributes in order. Those read from fields come in the
    order in which the fields were written; those that the operation adds keep
    their places.
  - `Form.read` reads a configuration by all rules of a form. A form whose rules
    do not all hold gives no element, but every rule is checked.
-/

namespace GatewayPolicy

/-! ## Rules -/

/-- A field and the attribute that it becomes. -/
structure Setting where
  field : String
  target : String
  deriving DecidableEq, Repr, Inhabited

/-- What a configuration has to hold, and what becomes of it. -/
inductive Rule where
  /-- The field has to be there. -/
  | required (setting : Setting)
  /-- The field may be there. -/
  | optional (setting : Setting)
  /-- Exactly one of the fields has to be there. -/
  | exactlyOne (choices : List Setting)
  /-- One or more of the fields have to be there. -/
  | atLeastOne (choices : List Setting)
  /-- The operation adds an attribute of its own. -/
  | supplied (added : Attribute)
  deriving DecidableEq, Repr, Inhabited

/-- An attribute, and where it comes from. -/
inductive Pull where
  /-- It was read from the field at an index. -/
  | fromField (index : Nat) (read : Attribute)
  /-- The operation added it. -/
  | supplied (added : Attribute)
  deriving DecidableEq, Repr, Inhabited

/-- Reads a field, if it is there. Nothing is given when it is no single text. -/
def Setting.pull (site : Site) (config : Value) (s : Setting) : Attempt (List Pull) :=
  match config.field? s.field, config.fieldIndex? s.field with
  | some v, some index => do
    let text ← site.singleText (.field s.field) v
    return [.fromField index { name := s.target, value := text }]
  | _, _ => pure []

/-- Two attempts that are both made; each is needed. -/
def Attempt.both {α : Type} (x y : Attempt (List α)) : Attempt (List α) := OptionT.mk do
  let a ← x.run
  let b ← y.run
  return match a, b with
    | some a, some b => some (a ++ b)
    | _, _ => none

/-- Several attempts that are all made; each is needed. -/
def Attempt.all {α : Type} : List (Attempt (List α)) → Attempt (List α)
  | [] => pure []
  | x :: xs => Attempt.both x (Attempt.all xs)

/-- The choices that are there. -/
def presentChoices (config : Value) (choices : List Setting) : List Setting :=
  choices.filter fun c => (config.field? c.field).isSome

/-- Reads the fields that a rule speaks of. -/
def Rule.pull (site : Site) (element : String) (config : Value) : Rule → Attempt (List Pull)
  | required s =>
    if (config.field? s.field).isSome then s.pull site config
    else site.reject (.missingField element s.field) config.span
  | optional s => s.pull site config
  | exactlyOne choices =>
    match presentChoices config choices with
    | [] => site.reject (.oneOfRequired element (choices.map (·.field))) config.span
    | [s] => s.pull site config
    | present => site.reject (.onlyOneOf element (present.map (·.field))) config.span
  | atLeastOne choices =>
    match presentChoices config choices with
    | [] => site.reject (.oneOfRequired element (choices.map (·.field))) config.span
    | _ => Attempt.all (choices.map (·.pull site config))
  | supplied a => pure [.supplied a]

/-! ## Order -/

/-- Inserts an attribute in front of all that were read from later fields. -/
def insertByIndex (p : Nat × Attribute) : List (Nat × Attribute) → List (Nat × Attribute)
  | [] => [p]
  | q :: qs => if p.1 ≤ q.1 then p :: q :: qs else q :: insertByIndex p qs

/-- The attributes read from fields, in the order of the fields. -/
def fieldOrder : List Pull → List (Nat × Attribute)
  | [] => []
  | .fromField index a :: ps => insertByIndex (index, a) (fieldOrder ps)
  | .supplied _ :: ps => fieldOrder ps

/-- Fills the places of attributes read from fields with others. -/
def fillPlaces : List Pull → List (Nat × Attribute) → List Attribute
  | [], _ => []
  | .supplied a :: ps, qs => a :: fillPlaces ps qs
  | .fromField .. :: ps, q :: qs => q.2 :: fillPlaces ps qs
  | .fromField .. :: ps, [] => fillPlaces ps []

/-- The attributes in the order in which they are written. -/
def arrange (pulls : List Pull) : List Attribute := fillPlaces pulls (fieldOrder pulls)

/-! ## Forms -/

/-- An element and the rules that fill it. -/
structure Form where
  element : String
  rules : List Rule
  deriving DecidableEq, Repr, Inhabited

/-- The attributes of a form, as its rules pull them. -/
def Form.pulls (site : Site) (config : Value) (f : Form) : Attempt (List Pull) :=
  Attempt.all (f.rules.map (·.pull site f.element config))

/-- The element that a configuration gives by a form. -/
def Form.read (site : Site) (f : Form) (config : Value) : Attempt Element := do
  let pulls ← f.pulls site config
  return { name := f.element, attributes := arrange pulls }

end GatewayPolicy
