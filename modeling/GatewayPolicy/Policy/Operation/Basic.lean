import GatewayPolicy.Policy.Operation.Listing
import GatewayPolicy.Policy.Operation.Response
import GatewayPolicy.Policy.Tier

/-! # Operations

  An operation is called as a statement and adds one node to the document, or
  nothing after a report. Operations that work alike are one constructor of
  `Operation` with different data.

  - `Operation.run` is what a call of an operation gives.
-/

namespace GatewayPolicy

/-- A configuration that is read by a form and tiers below it. -/
structure Schema where
  /-- The type that the configuration is written with. -/
  type : String
  form : Form
  tiers : List Tier := []
  /-- Whether the configuration may be left out. -/
  omissible : Bool := false
  deriving DecidableEq, Repr, Inhabited

/-- What an operation does. -/
inductive Operation where
  /-- An element without attributes; no arguments. -/
  | bare (element : String)
  /-- A name, and values as children; without values exactly the name is given. -/
  | entry (element action : String) (takesValues : Bool)
  /-- An element around one text. -/
  | text (element : String)
  /-- Attributes given one after the other; the first few are needed. -/
  | positional (element : String) (needed : Nat) (names : List String)
  /-- Markup that is copied as it stands. -/
  | markup
  /-- An element described by a schema. -/
  | configured (schema : Schema)
  /-- A check of a header against allowed values. -/
  | headerCheck
  /-- A filter on the caller's address. -/
  | addressFilter
  /-- A response that ends the processing. -/
  | response
  deriving DecidableEq, Repr, Inhabited

/-! ## Shapes of operations -/

/-- The values of the arguments after the first, as children. -/
def entryValues (site : Site) (b : Bindings) (arguments : List Argument) :
    Reported (List Node) := do
  let texts ← Reported.collect (fun a => extract site b a.value >>= site.texts) arguments
  return texts.flatten.map (textChild "value")

/-- A name with values. -/
def readEntry (site : Site) (b : Bindings) (call : Call) (element action : String)
    (takesValues : Bool) : Attempt Element := do
  site.checkCount call (if takesValues then { least := 2, most := none } else .exactly 1)
  match call.arguments with
  | [] => failure
  | first :: others => do
    let name ← site.textArgument b first
    let values ← (entryValues site b others : Reported (List Node))
    let e : Element := { name := element }
    return ((e.addAttribute "name" name).addAttribute "exists-action" action).append values

/-- The only argument, as a text. -/
def onlyText (site : Site) (b : Bindings) (call : Call) : Attempt String := do
  site.checkCount call (.exactly 1)
  match call.arguments with
  | [] => failure
  | a :: _ => site.textArgument b a

/-- Arguments as attributes, up to the first that is no single text. -/
def positionalAttributes (site : Site) (b : Bindings) :
    List String → List Argument → Attempt (List Attribute)
  | name :: names, a :: as => do
    let text ← site.textArgument b a
    let others ← positionalAttributes site b names as
    return { name, value := text } :: others
  | _, _ => pure []

/-- An element with its attributes given one after the other. -/
def readPositional (site : Site) (b : Bindings) (call : Call) (element : String) (needed : Nat)
    (names : List String) : Attempt Element := do
  site.checkCount call { least := needed, most := some names.length }
  let attributes ← positionalAttributes site b names call.arguments
  return { name := element, attributes }

/-- An element described by a schema. -/
def Schema.read (site : Site) (b : Bindings) (call : Call) (s : Schema) : Attempt Element := do
  site.checkCount call { least := if s.omissible then 0 else 1, most := some 1 }
  match call.arguments with
  | [] => return { name := s.form.element }
  | a :: _ => do
    let config ← site.configuration b call s.type a
    s.form.readTiers site s.tiers config

/-- Markup as it is copied: a text, without the mark of inline code. -/
def plainMarkup (text : String) : String := (stripMarker text).getD text

/-! ## Running -/

/-- The node that a call of an operation adds. -/
def Operation.run (site : Site) (b : Bindings) (call : Call) : Operation → Attempt Node
  | bare element => do
    site.checkCount call (.exactly 0)
    return Element.toNode { name := element }
  | entry element action takesValues =>
    Element.toNode <$> readEntry site b call element action takesValues
  | text element => do
    let t ← onlyText site b call
    return textChild element t
  | positional element needed names =>
    Element.toNode <$> readPositional site b call element needed names
  | markup => do
    let t ← onlyText site b call
    return .raw (plainMarkup t)
  | configured schema => Element.toNode <$> schema.read site b call
  | headerCheck => do
    let config ← site.onlyConfiguration b call "CheckHeaderConfig"
    Element.toNode <$> readHeaderCheck site config
  | addressFilter => do
    let config ← site.onlyConfiguration b call "IpFilterConfig"
    Element.toNode <$> readAddressFilter site config
  | response => do
    let config ← site.onlyConfiguration b call "ReturnResponseConfig"
    Element.toNode <$> readResponse site config

end GatewayPolicy
