import GatewayPolicy.Policy.Rule

/-! # Operations with lists

  Some elements hold a list: the values that a header may have, or the
  addresses that are let through. Every entry becomes a child of its own.
-/

namespace GatewayPolicy

/-- A child that holds one text. -/
def textChild (name text : String) : Node := (({ name } : Element).addText text).toNode

/-- Reads the entries of a list field, each as one child; those that are not valid are
    left out. A field that is no list has no entries. -/
def readEntries (config : Value) (field : String) (read : Value → Attempt Element) :
    Reported (List Node) :=
  match config.field? field with
  | none => return []
  | some list => do
    let built ← Reported.collect (fun entry => (read entry).run) list.elements
    return (built.filterMap id).map (·.toNode)

/-- The form of a header check. -/
def headerCheckForm : Form where
  element := "check-header"
  rules := [.required ⟨"Name", "name"⟩,
    .required ⟨"FailCheckHttpCode", "failed-check-httpcode"⟩,
    .required ⟨"FailCheckErrorMessage", "failed-check-error-message"⟩,
    .required ⟨"IgnoreCase", "ignore-case"⟩]

/-- A header check, with the values that are allowed. -/
def readHeaderCheck (site : Site) (config : Value) : Attempt Element := do
  let e ← headerCheckForm.read site config
  let values ← (site.fieldTexts config "Values" : Reported (List String))
  return e.append (values.map (textChild "value"))

/-- The form of an address filter. -/
def addressFilterForm : Form where
  element := "ip-filter"
  rules := [.required ⟨"Action", "action"⟩]

/-- The form of a range of addresses. -/
def addressRangeForm : Form where
  element := "address-range"
  rules := [.required ⟨"From", "from"⟩, .required ⟨"To", "to"⟩]

/-- An address filter, with its addresses, then its ranges. -/
def readAddressFilter (site : Site) (config : Value) : Attempt Element := do
  let e ← addressFilterForm.read site config
  let addresses ← (site.fieldTexts config "Addresses" : Reported (List String))
  let ranges ← (readEntries config "AddressRanges" (addressRangeForm.read site) :
    Reported (List Node))
  return e.append (addresses.map (textChild "address") ++ ranges)

end GatewayPolicy
