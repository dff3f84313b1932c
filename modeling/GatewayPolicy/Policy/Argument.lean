import GatewayPolicy.Policy.Extract

/-! # Arguments of operations

  An operation checks how many arguments it was given, takes the value of each
  argument, and looks at the shape of the values. It is given up after the
  first report that leaves it without something it needs.

  - `Attempt` is a result that may be given up on the way.
  - `Site.configuration` takes the object that an operation is configured by.
  - `Site.textArgument` takes a single text.
-/

namespace GatewayPolicy

/-- A result that may be missing, and what was reported on the way. -/
abbrev Attempt := OptionT Reported

/-- A call of an operation. -/
structure Call where
  method : String
  arguments : List Argument
  span : Span
  deriving Inhabited

namespace Site

/-! ## Values -/

/-- Reports a problem and gives up. -/
def reject {α : Type} (site : Site) (p : Problem) (span : Span) : Attempt α := do
  site.report p span
  failure

/-- The text of a value. -/
def singleText (site : Site) (slot : TextSlot) (v : Value) : Attempt String :=
  match v.text? with
  | some text => pure text
  | none => site.reject (.notSingle slot) v.span

/-- The texts among some values; all others are reported. -/
def textsAmong (site : Site) (vs : List Value) : Reported (List String) := do
  let texts ← Reported.collect (fun v => (site.singleText .value v).run) vs
  return texts.filterMap id

/-- The texts of a value: one text, or those of a list. -/
def texts (site : Site) (v : Value) : Reported (List String) :=
  match v.text? with
  | some text => return [text]
  | none => site.textsAmong v.elements

/-- The texts of a field, if it is there. -/
def fieldTexts (site : Site) (config : Value) (field : String) : Reported (List String) :=
  match config.field? field with
  | some v => site.texts v
  | none => return []

/-! ## Arguments -/

/-- Gives up when a call has too few or too many arguments. -/
def checkCount (site : Site) (call : Call) (range : ArgumentRange) : Attempt Unit :=
  if range.allows call.arguments.length then pure ()
  else site.reject (.argumentCount call.method range call.arguments.length) call.span

/-- The text of an argument. -/
def textArgument (site : Site) (b : Bindings) (a : Argument) : Attempt String := do
  let v ← (extract site b a.value : Reported Value)
  site.singleText .argument v

/-- The object that an operation is configured by. It has to be written as a
    new object; its type may be left out. -/
def configuration (site : Site) (b : Bindings) (call : Call) (expected : String) (a : Argument) :
    Attempt Value :=
  match a.value with
  | .object .. => do
    let v ← (extract site b a.value : Reported Value)
    match v.simpleType? with
    | none => return v
    | some actual =>
      if actual == expected then return v
      else site.reject (.argumentType call.method expected actual) a.span
  | other => site.reject (.noObject call.method other.shape) a.span

/-- The configuration of an operation that takes nothing else. -/
def onlyConfiguration (site : Site) (b : Bindings) (call : Call) (expected : String) :
    Attempt Value := do
  site.checkCount call (.exactly 1)
  match call.arguments with
  | a :: _ => site.configuration b call expected a
  | [] => failure

end Site

end GatewayPolicy
