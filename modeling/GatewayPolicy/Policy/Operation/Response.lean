import GatewayPolicy.Policy.Operation.Listing
import GatewayPolicy.Text.LowerCase

/-! # Responses

  A response that the gateway answers with: a status, headers and a body. Each
  part is read on its own; a part that is not valid is reported and left out.
-/

namespace GatewayPolicy

/-- The form of a response. -/
def responseForm : Form where
  element := "return-response"
  rules := [.optional ⟨"ResponseVariableName", "response-variable-name"⟩]

/-- The form of a response's status. -/
def responseStatusForm : Form where
  element := "set-status"
  rules := [.required ⟨"Code", "code"⟩, .optional ⟨"Reason", "reason"⟩]

/-- The form of a response's header. -/
def responseHeaderForm : Form where
  element := "set-header"
  rules := [.required ⟨"Name", "name"⟩]

/-- The form of a response's body, its content apart. -/
def responseBodyForm : Form where
  element := "set-body"
  rules := [.optional ⟨"Template", "template"⟩]

/-- What is done with a header that is there already. -/
def readExistsAction (site : Site) (header : Value) : Attempt String :=
  match header.field? "ExistsAction" with
  | none => pure "override"
  | some action => do
    let text ← site.singleText (.field "ExistsAction") action
    return Text.lowerCase text

/-- A header with its values. -/
def readResponseHeader (site : Site) (header : Value) : Attempt Element := do
  let e ← responseHeaderForm.read site header
  let action ← readExistsAction site header
  let values ← (site.fieldTexts header "Values" : Reported (List String))
  return (e.addAttribute "exists-action" action).append (values.map (textChild "value"))

/-- A body: a text, or an object with the text as its content. -/
def readResponseBody (site : Site) (body : Value) : Attempt Element :=
  match body.text? with
  | some text => pure (({ name := responseBodyForm.element } : Element).addText text)
  | none => do
    let e ← responseBodyForm.read site body
    match body.field? "Content" with
    | none => site.reject (.missingField responseBodyForm.element "Content") body.span
    | some content => do
      let text ← site.singleText (.field "Content") content
      return e.addText text

/-- Reads a field, if it is there, as one child. -/
def readPart (config : Value) (field : String) (read : Value → Attempt Element) :
    Reported (List Node) :=
  match config.field? field with
  | none => return []
  | some v => do
    let e ← (read v).run
    return (e.map (·.toNode)).toList

/-- A response with its status, its headers and its body. -/
def readResponse (site : Site) (config : Value) : Attempt Element := do
  let e ← responseForm.read site config
  let status ← (readPart config "Status" (responseStatusForm.read site) : Reported (List Node))
  let headers ← (readEntries config "Headers" (readResponseHeader site) : Reported (List Node))
  let body ← (readPart config "Body" (readResponseBody site) : Reported (List Node))
  return e.append (status ++ headers ++ body)

end GatewayPolicy
