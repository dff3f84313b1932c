import GatewayPolicy.Proofs.Markup.Layout
import GatewayPolicy.Proofs.Policy.Accounting
import GatewayPolicy.Proofs.Policy.Rules

/-! # Refinements that are left out

  A limit has refinements, and a refinement may have refinements of its own. One that is
  not valid is left out with everything below it. Nothing else is: neither what stands
  beside it nor what stands around it.

  - `Form.run_readTiers_cons` says what one level does: the form decides alone whether
    there is an element, and the entries below only give children.
  - `Tier.Prunes` says which children they give, and what is reported.
  - `Form.kept` lists the configurations that fit together with all around them;
    `Form.spread_readTiers` finds exactly these in the element, at every depth.
  - `Form.readTiers_prunes` puts both together.
-/

namespace GatewayPolicy

open Attempt

/-! ## One level -/

/-- The value is a list. -/
def Value.isList : Value → Bool
  | .positional .. => true
  | .single .. | .named .. => false

/-- The entries of a list field; a field that is no list has none. -/
def Value.entriesOf (config : Value) (field : String) : List Value :=
  ((config.field? field).map Value.elements).getD []

/-- The children that a tier gives to the element around it. -/
def Tier.children (site : Site) (element : String) (tier : Tier) (below : List Tier)
    (config : Value) : Reported (List Node) :=
  match config.field? tier.field with
  | none => return []
  | some (.positional _ entries _) => do
    let built ← Reported.collect (fun entry => (tier.form.readTiers site below entry).run) entries
    return (built.filterMap id).map (·.toNode)
  | some other => do
    site.report (.notList element tier.field) other.span
    return []

section Level

variable (site : Site) (f : Form) (tier : Tier) (below : List Tier) (config : Value)

/-- The form alone decides whether there is an element, and what its attributes are. The
    entries below are only read if there is one. -/
theorem Form.run_readTiers_cons :
    (f.readTiers site (tier :: below) config).run =
      if f.Fits config then
        { value := some ((f.filled config).append (tier.children site f.element below config).value)
          diagnostics := (tier.children site f.element below config).diagnostics }
      else { value := none, diagnostics := site.diagnosticsOf (f.faults config) } := by
  by_cases hfits : f.Fits config
  · have hread : (f.read site config).run.value = some (f.filled config) := by
      rw [f.value_read, if_pos hfits]
    rw [if_pos hfits, Form.readTiers, run_bind_some _ hread, Form.diagnostics_read_of_fits hfits,
      List.nil_append, Tier.children]
    cases config.field? tier.field with
    | none =>
      rw [Reported.value_pure, Element.append_nil]
      rfl
    | some v =>
      cases v with
      | positional type entries span =>
        dsimp only
        rw [run_lift_map, Reported.diagnostics_bind, Reported.diagnostics_pure, List.append_nil]
        rfl
      | single text span =>
        rw [Reported.value_bind, Reported.value_pure, Element.append_nil]
        rfl
      | named type fields span =>
        rw [Reported.value_bind, Reported.value_pure, Element.append_nil]
        rfl
  · have hread : (f.read site config).run.value = none := by
      rw [f.value_read, if_neg hfits]
    rw [if_neg hfits, Form.readTiers, run_bind_none _ hread, f.diagnostics_read]

theorem Form.value_readTiers_isSome (tiers : List Tier) :
    (f.readTiers site tiers config).run.value.isSome ↔ f.Fits config := by
  have hread : ((if f.Fits config then some (f.filled config) else none).isSome : Prop) ↔
      f.Fits config := by
    split <;> simp [*]
  cases tiers with
  | nil => rwa [Form.readTiers, Form.value_read]
  | cons tier below =>
    rw [Form.run_readTiers_cons]
    split <;> simp [*]

end Level

/-! ## Children -/

/-- What a tier gives to the element around it, and what it reports. -/
structure Tier.Prunes (site : Site) (element : String) (tier : Tier) (below : List Tier)
    (config : Value) (children : List Node) (reports : List Diagnostic) : Prop where
  /-- Without the field there are no children. -/
  absent : config.field? tier.field = none → children = [] ∧ reports = []
  /-- A field that is no list is reported, and gives no children. -/
  noList : ∀ v, config.field? tier.field = some v → v.isList = false →
    children = [] ∧ reports = [site.diagnostic (.notList element tier.field) v.span]
  /-- Each entry that fits gives what it gives by itself, and the others give nothing. -/
  kept : ∀ v, config.field? tier.field = some v → v.isList = true →
    List.Forall₂ (fun entry child => ∃ e : Element,
        (tier.form.readTiers site below entry).run.value = some e ∧ child = e.toNode)
      (v.elements.filter fun entry => tier.form.Fits entry) children
  /-- Entries report what they report by themselves. -/
  reported : ∀ v, config.field? tier.field = some v → v.isList = true →
    reports = v.elements.flatMap fun entry => (tier.form.readTiers site below entry).run.diagnostics
  /-- An entry that gives nothing has reported why. -/
  accounted : ∀ v, config.field? tier.field = some v → ∀ entry ∈ v.elements,
    (tier.form.readTiers site below entry).run.value = none →
      (tier.form.readTiers site below entry).run.diagnostics ≠ []

/-- Results that are there, next to what they were made of. -/
theorem forall₂_filterMap {α β γ : Type} {p : α → Prop} [DecidablePred p] {f : α → Option β}
    {g : β → γ} (h : ∀ a, (f a).isSome ↔ p a) (as : List α) :
    List.Forall₂ (fun a c => ∃ b, f a = some b ∧ c = g b) (as.filter fun a => p a)
      (((as.map f).filterMap id).map g) := by
  induction as with
  | nil => exact .nil
  | cons a as ih =>
    cases hf : f a with
    | none =>
      have hp : ¬ p a := by simp [← h, hf]
      simpa [hp, hf] using ih
    | some b =>
      have hp : p a := by simp [← h, hf]
      simpa [hp, hf] using ih

theorem Tier.children_prunes (site : Site) (element : String) (tier : Tier) (below : List Tier)
    (config : Value) :
    tier.Prunes site element below config (tier.children site element below config).value
      (tier.children site element below config).diagnostics where
  absent habsent := by
    rw [Tier.children, habsent]
    exact ⟨rfl, rfl⟩
  noList v hv hlist := by
    rw [Tier.children, hv]
    cases v with
    | positional type entries span => cases hlist
    | single text span => exact ⟨rfl, rfl⟩
    | named type fields span => exact ⟨rfl, rfl⟩
  kept v hv hlist := by
    rw [Tier.children, hv]
    cases v with
    | single text span => cases hlist
    | named type fields span => cases hlist
    | positional type entries span =>
      have hbuilt := forall₂_filterMap (g := Element.toNode)
        (fun entry => tier.form.value_readTiers_isSome site entry below) entries
      rwa [← Reported.value_collect] at hbuilt
  reported v hv hlist := by
    rw [Tier.children, hv]
    cases v with
    | single text span => cases hlist
    | named type fields span => cases hlist
    | positional type entries span =>
      rw [← Reported.diagnostics_collect]
      exact List.append_nil _
  accounted v _ entry _ := tier.form.accounted_readTiers site below entry

/-! ## All levels -/

/-- An element without what is in it. -/
def Element.withoutChildren (e : Element) : Element := { e with children := [] }

/-- The elements that a configuration gives, from the outside in: those of the
    configurations that fit together with all that are around them. -/
def Form.kept (f : Form) (tiers : List Tier) (config : Value) : List Element :=
  match tiers with
  | [] => if f.Fits config then [f.filled config] else []
  | tier :: below =>
    if f.Fits config then
      f.filled config :: (config.entriesOf tier.field).flatMap (Form.kept tier.form below)
    else []

theorem Node.nestedOfAll_eq_flatMap (ns : List Node) :
    Node.nestedOfAll ns = ns.flatMap Node.nested := by
  induction ns with
  | nil => rfl
  | cons n ns ih => rw [Node.nestedOfAll, ih, List.flatMap_cons]

/-- The elements at any depth of a result that may be missing, without what is in them. -/
def Element.spread : Option Element → List Element
  | none => []
  | some e => e.toNode.nested.map Element.withoutChildren

theorem Element.spread_built {α : Type} (read : α → Option Element) (as : List α) :
    ((((as.map read).filterMap id).map Element.toNode).flatMap Node.nested).map
        Element.withoutChildren =
      as.flatMap fun a => Element.spread (read a) := by
  induction as with
  | nil => rfl
  | cons a as ih =>
    rw [List.flatMap_cons, ← ih, List.map_cons, List.filterMap_cons]
    cases hread : read a with
    | none => rfl
    | some e =>
      rw [id_eq, List.map_cons, List.flatMap_cons, List.map_append]
      rfl

theorem Tier.spread_children (site : Site) (element : String) (tier : Tier) (below : List Tier)
    (config : Value) :
    (Node.nestedOfAll (tier.children site element below config).value).map
        Element.withoutChildren =
      (config.entriesOf tier.field).flatMap fun entry =>
        Element.spread (tier.form.readTiers site below entry).run.value := by
  rw [Node.nestedOfAll_eq_flatMap, Tier.children, Value.entriesOf]
  cases config.field? tier.field with
  | none => rfl
  | some v =>
    cases v with
    | single text span => rfl
    | named type fields span => rfl
    | positional type entries span =>
      have hbuilt := Element.spread_built
        (fun entry => (tier.form.readTiers site below entry).run.value) entries
      rwa [← Reported.value_collect] at hbuilt

/-- Nothing is left out but what does not fit and what is below it. -/
theorem Form.spread_readTiers (site : Site) (f : Form) (tiers : List Tier) (config : Value) :
    Element.spread (f.readTiers site tiers config).run.value = f.kept tiers config := by
  induction tiers generalizing f config with
  | nil =>
    rw [Form.readTiers, Form.value_read, Form.kept]
    split <;> rfl
  | cons tier below ih =>
    rw [Form.run_readTiers_cons, Form.kept]
    split
    · -- below the element are the entries of the tier, each with what is below it
      have hbelow := tier.spread_children site f.element below config
      simp only [ih] at hbelow
      rw [← hbelow]
      rfl
    · rfl

/-- A configuration that is read level by level gives an element exactly if the rules of its
    own level hold, whatever is below. The children are given by the entries that fit, in
    order and each as by itself; every other entry is reported and left out, and so is a
    field that is no list. At all depths together, what is left out is what does not fit,
    with everything below it. -/
theorem Form.readTiers_prunes (site : Site) (f : Form) (tiers : List Tier) (config : Value) :
    let built := (f.readTiers site tiers config).run
    (built.value.isSome ↔ f.Fits config) ∧
      (¬ f.Fits config → built.diagnostics = site.diagnosticsOf (f.faults config)) ∧
      (∀ e, built.value = some e → e.withoutChildren = f.filled config ∧
        (tiers = [] → e.children = [] ∧ built.diagnostics = []) ∧
        ∀ tier below, tiers = tier :: below →
          tier.Prunes site f.element below config e.children built.diagnostics) ∧
      Element.spread built.value = f.kept tiers config := by
  intro built
  refine ⟨f.value_readTiers_isSome site config tiers, ?_, ?_, f.spread_readTiers site tiers config⟩
  · intro hfits
    cases tiers with
    | nil => exact f.diagnostics_read site config
    | cons tier below =>
      simp only [built]
      rw [f.run_readTiers_cons, if_neg hfits]
  · intro e he
    have hfits : f.Fits config := by
      rw [← f.value_readTiers_isSome site config tiers]
      exact Option.isSome_of_mem he
    cases tiers with
    | nil =>
      obtain ⟨-, rfl⟩ := Form.eq_filled he
      refine ⟨rfl, fun _ => ⟨rfl, ?_⟩, fun tier below h => nomatch h⟩
      exact Form.diagnostics_read_of_fits hfits
    | cons tier below =>
      have hrun := f.run_readTiers_cons site tier below config
      rw [if_pos hfits] at hrun
      simp only [built, hrun] at he ⊢
      obtain rfl := Option.some.inj he
      refine ⟨rfl, fun h => (nomatch h), ?_⟩
      rintro - - ⟨⟩
      exact tier.children_prunes site f.element below config

/-- An interface without a name is left out together with its operation, and so is an
    operation without one; what is beside and around them stays. -/
example :
    let entry (fields : List (String × Value)) : Value := .named none fields default
    let entries (vs : List Value) : Value := .positional none vs default
    let calls : String × Value := ("Calls", .single "5" default)
    let operation := entry [("Name", .single "get" default), calls]
    let unnamed := entry [calls, ("Operations", entries [operation])]
    let orders := entry [("Id", .single "orders" default), calls,
      ("Operations", entries [entry [calls], operation])]
    let config := entry [calls, ("RenewalPeriod", .single "60" default),
      ("Apis", entries [unnamed, orders])]
    (quotaSchema.form.kept quotaSchema.tiers config).map (·.name) =
      ["quota", "api", "operation"] := by
  decide

end GatewayPolicy
