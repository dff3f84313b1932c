import GatewayPolicy.Policy.Rule

/-! # Tiers of settings

  Limits may be refined for single interfaces and single operations. The
  refinements stand in a list field of the configuration; each entry is read by
  a form of its own. An entry that is not valid is reported and left out, and
  the others stay.
-/

namespace GatewayPolicy

/-- A list field and the form of its entries. -/
structure Tier where
  field : String
  form : Form
  deriving DecidableEq, Repr, Inhabited

/-- Reads a configuration by a form, and its refinements by the tiers below. -/
def Form.readTiers (site : Site) (f : Form) (tiers : List Tier) (config : Value) :
    Attempt Element :=
  match tiers with
  | [] => f.read site config
  | tier :: below => do
    let e ← f.read site config
    match config.field? tier.field with
    | none => return e
    | some (.positional _ entries _) => do
      let built ← (Reported.collect
        (fun entry => (Form.readTiers site tier.form below entry).run) entries :
          Reported (List (Option Element)))
      return e.append ((built.filterMap id).map (·.toNode))
    | some other => do
      site.report (.notList f.element tier.field) other.span
      return e

end GatewayPolicy
