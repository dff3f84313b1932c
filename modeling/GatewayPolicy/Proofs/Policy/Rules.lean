import GatewayPolicy.Policy.Draft
import GatewayPolicy.Proofs.Policy.Sources

/-! # What the rules of a form decide

  A form is read rule by rule, and a rule that fails does not keep the others from
  being checked. So what a form gives and what it reports can be told rule by rule,
  without running anything.

  - `Rule.Met` says when a rule holds of a configuration.
  - `Rule.faults` lists what is wrong by a rule: at most one thing that the rule as a
    whole lacks, and every field it reads that is no single text.
  - `Rule.draws` lists the attributes that a rule reads.
  - `Form.tells_read` says that a form gives an element exactly when there is no fault,
    and reports every fault once. `Draft.add_configured` is the same for operations
    that are described by a form.
-/

namespace GatewayPolicy

/-! ## Attempts that report exactly what they fail for -/

namespace Attempt

variable {α β ι : Type}

/-- The attempt reports these diagnostics. It gives this result if there are none, and
    is given up otherwise. -/
def Tells (x : Attempt α) (a : α) (reports : List Diagnostic) : Prop :=
  x.run = { value := if reports.isEmpty then some a else none, diagnostics := reports }

theorem tells_pure (a : α) : Tells (pure a : Attempt α) a [] := rfl

theorem tells_reject (site : Site) (p : Problem) (span : Span) (a : α) :
    Tells (site.reject p span : Attempt α) a [site.diagnostic p span] := rfl

theorem Tells.map {x : Attempt α} {a : α} {reports : List Diagnostic} (h : Tells x a reports)
    (f : α → β) : Tells (f <$> x) (f a) reports := by
  rw [map_eq_pure_bind]
  cases reports with
  | nil =>
    have hx : x.run.value = some a := congrArg Reported.value h
    rw [Tells, run_bind_some _ hx, h]
    rfl
  | cons d ds =>
    have hx : x.run.value = none := congrArg Reported.value h
    rw [Tells, run_bind_none _ hx, h]
    rfl

/-- Of two attempts that are both made, both report, and both are needed. -/
theorem Tells.both {x y : Attempt (List α)} {as bs : List α} {ds es : List Diagnostic}
    (hx : Tells x as ds) (hy : Tells y bs es) :
    Tells (Attempt.both x y) (as ++ bs) (ds ++ es) := by
  have hvalue : (Attempt.both x y).run.value =
      if (ds ++ es).isEmpty then some (as ++ bs) else none := by
    rw [value_both, hx, hy]
    cases ds <;> cases es <;> rfl
  have hreports : (Attempt.both x y).run.diagnostics = ds ++ es := by
    rw [diagnostics_both, hx, hy]
  rw [Tells, ← hvalue, ← hreports]

theorem tells_all {x : ι → Attempt (List α)} {as : ι → List α} {ds : ι → List Diagnostic}
    (h : ∀ i, Tells (x i) (as i) (ds i)) (is : List ι) :
    Tells (Attempt.all (is.map x)) (is.flatMap as) (is.flatMap ds) := by
  induction is with
  | nil => exact tells_pure []
  | cons i is ih => exact (h i).both ih

end Attempt

open Attempt

/-! ## Fields -/

/-- The diagnostics of some faults. -/
def Site.diagnosticsOf (site : Site) (faults : List (Problem × Span)) : List Diagnostic :=
  faults.map fun fault => site.diagnostic fault.1 fault.2

namespace Value

/-- The field is there, and it is a single text. -/
def HasText (config : Value) (field : String) : Prop := (config.fieldText? field).isSome

instance (config : Value) (field : String) : Decidable (config.HasText field) :=
  inferInstanceAs (Decidable (_ = true))

/-- The fault of a field that is there and no single text. -/
def misfit? (config : Value) (field : String) : Option (Problem × Span) :=
  ((config.field? field).filter (·.text?.isNone)).map fun v => (.notSingle (.field field), v.span)

variable {config v : Value} {field : String}

theorem isSome_fieldIndex? (config : Value) (field : String) :
    (config.fieldIndex? field).isSome = (config.field? field).isSome := by
  rw [fieldIndex?, field?, List.findIdx?_isSome, Option.isSome_map, Bool.eq_iff_iff,
    List.any_eq_true, List.find?_isSome]

theorem hasText_iff (h : config.field? field = some v) :
    config.HasText field ↔ v.text?.isSome := by
  rw [HasText, fieldText?, h, Option.bind_some]

theorem not_hasText (h : config.field? field = none) : ¬ config.HasText field := by
  rw [HasText, fieldText?, h]
  exact Bool.false_ne_true

theorem misfit?_of_absent (h : config.field? field = none) : config.misfit? field = none := by
  rw [misfit?, h]
  rfl

/-- A field that is there is a single text or a fault. -/
theorem misfit?_eq_none_iff (h : (config.field? field).isSome) :
    config.misfit? field = none ↔ config.HasText field := by
  obtain ⟨v, hv⟩ := Option.isSome_iff_exists.mp h
  rw [hasText_iff hv, misfit?, hv]
  cases hv : v.text? <;> simp [Option.filter, hv]

end Value

/-! ## Rules -/

/-- The attribute that a setting gives: the field that is read first of its name, if it is
    a single text. -/
def Setting.draw? (config : Value) (s : Setting) : Option Pull :=
  (config.fieldIndex? s.field).bind fun index =>
    (config.fieldText? s.field).map fun text => .fromField index { name := s.target, value := text }

namespace Rule

/-- Whether a rule holds of a configuration. -/
def Met (config : Value) : Rule → Prop
  | required s => config.HasText s.field
  | optional s => (config.field? s.field).isNone ∨ config.HasText s.field
  | exactlyOne choices =>
    (presentChoices config choices).length = 1 ∧
      ∀ s ∈ presentChoices config choices, config.HasText s.field
  | atLeastOne choices =>
    1 ≤ (presentChoices config choices).length ∧
      ∀ s ∈ presentChoices config choices, config.HasText s.field
  | supplied _ => True

instance (config : Value) : (r : Rule) → Decidable (r.Met config)
  | required s => inferInstanceAs (Decidable (config.HasText s.field))
  | optional s => inferInstanceAs (Decidable (_ ∨ config.HasText s.field))
  | exactlyOne choices =>
    inferInstanceAs (Decidable (_ ∧ ∀ s ∈ presentChoices config choices, config.HasText s.field))
  | atLeastOne choices =>
    inferInstanceAs (Decidable (_ ∧ ∀ s ∈ presentChoices config choices, config.HasText s.field))
  | supplied _ => inferInstanceAs (Decidable True)

/-- The settings whose fields are there and are read. Of choices that exclude each other
    none is read unless it is the only one. -/
def reads (config : Value) : Rule → List Setting
  | required s | optional s => presentChoices config [s]
  | exactlyOne choices =>
    if (presentChoices config choices).length = 1 then presentChoices config choices else []
  | atLeastOne choices => presentChoices config choices
  | supplied _ => []

/-- What a rule as a whole lacks: a field that has to be there, or the right number of
    choices. -/
def lack? (element : String) (config : Value) : Rule → Option Problem
  | required s =>
    if (config.field? s.field).isSome then none else some (.missingField element s.field)
  | exactlyOne choices =>
    match (presentChoices config choices).length with
    | 0 => some (.oneOfRequired element (choices.map (·.field)))
    | 1 => none
    | _ => some (.onlyOneOf element ((presentChoices config choices).map (·.field)))
  | atLeastOne choices =>
    if (presentChoices config choices).length = 0 then
      some (.oneOfRequired element (choices.map (·.field)))
    else none
  | optional _ | supplied _ => none

/-- What is wrong by a rule, with the places where it is reported. -/
def faults (element : String) (config : Value) (r : Rule) : List (Problem × Span) :=
  ((r.lack? element config).map (·, config.span)).toList ++
    (r.reads config).filterMap fun s => config.misfit? s.field

/-- The attributes that a rule gives when it holds. -/
def draws (config : Value) : Rule → List Pull
  | supplied x => [.supplied x]
  | r => (r.reads config).filterMap (Setting.draw? config)

end Rule

section Rules

variable {config : Value}

/-- A choice that is not there gives no attribute and is no fault. -/
theorem filterMap_presentChoices {α : Type} {f : Setting → Option α}
    (hf : ∀ s, config.field? s.field = none → f s = none) (choices : List Setting) :
    (presentChoices config choices).filterMap f = choices.flatMap fun s => (f s).toList := by
  rw [presentChoices, List.filterMap_filter, ← List.filterMap_eq_flatMap_toList]
  congr 1
  funext s
  cases h : config.field? s.field with
  | none =>
    rw [hf s h]
    rfl
  | some v => rfl

theorem Setting.draw?_of_absent {s : Setting} (h : config.field? s.field = none) :
    s.draw? config = none := by
  have hindex : config.fieldIndex? s.field = none := by
    rw [← Option.not_isSome_iff_eq_none, Value.isSome_fieldIndex?, h]
    exact Bool.false_ne_true
  rw [draw?, hindex]
  rfl

end Rules

section Reading

variable (site : Site) (config : Value)

theorem Setting.tells_pull (s : Setting) :
    Tells (s.pull site config) (s.draw? config).toList
      (site.diagnosticsOf (config.misfit? s.field).toList) := by
  cases hfield : config.field? s.field with
  | none =>
    rw [Setting.draw?_of_absent hfield, Value.misfit?_of_absent hfield, Setting.pull, hfield]
    exact tells_pure []
  | some v =>
    have hindex : (config.fieldIndex? s.field).isSome := by
      rw [Value.isSome_fieldIndex?, hfield]
      rfl
    obtain ⟨index, hindex⟩ := Option.isSome_iff_exists.mp hindex
    rw [Setting.pull, Setting.draw?, Value.misfit?, Value.fieldText?, hfield, hindex]
    cases v with
    | single text span => exact tells_pure _
    | named type fields span => exact tells_reject site _ _ _
    | positional type elements span => exact tells_reject site _ _ _

/-- Settings that are all read, those that are not there included. -/
theorem tells_choices (choices : List Setting) :
    Tells (Attempt.all (choices.map (·.pull site config)))
      ((presentChoices config choices).filterMap (Setting.draw? config))
      (site.diagnosticsOf
        ((presentChoices config choices).filterMap fun s => config.misfit? s.field)) := by
  have hall := tells_all (fun s => Setting.tells_pull site config s) choices
  rw [filterMap_presentChoices fun _ => Setting.draw?_of_absent,
    filterMap_presentChoices fun _ => Value.misfit?_of_absent]
  rwa [Site.diagnosticsOf, List.map_flatMap]

/-- One setting that is read. -/
theorem tells_choice (s : Setting) :
    Tells (s.pull site config) ((presentChoices config [s]).filterMap (Setting.draw? config))
      (site.diagnosticsOf
        ((presentChoices config [s]).filterMap fun s => config.misfit? s.field)) := by
  have hread := s.tells_pull site config
  rw [filterMap_presentChoices fun _ => Setting.draw?_of_absent,
    filterMap_presentChoices fun _ => Value.misfit?_of_absent]
  rwa [List.flatMap_singleton, List.flatMap_singleton]

/-- Every fault of a rule is reported once, in order, and nothing else is. -/
theorem Rule.tells_pull (element : String) (r : Rule) :
    Tells (r.pull site element config) (r.draws config)
      (site.diagnosticsOf (r.faults element config)) := by
  cases r with
  | supplied x => exact tells_pure _
  | optional s => exact tells_choice site config s
  | required s =>
    simp only [pull, draws, faults, reads, lack?]
    cases hfield : config.field? s.field with
    | none =>
      have habsent : presentChoices config [s] = [] := by simp [presentChoices, hfield]
      rw [habsent]
      exact tells_reject site _ _ _
    | some v => exact tells_choice site config s
  | exactlyOne choices =>
    simp only [pull, draws, faults, reads, lack?]
    cases hchoices : presentChoices config choices with
    | nil => exact tells_reject site _ _ _
    | cons s others =>
      cases others with
      | nil =>
        have hs : presentChoices config [s] = [s] := by
          rw [← hchoices, presentChoices, presentChoices, List.filter_filter]
          simp only [Bool.and_self]
        have hread := tells_choice site config s
        rw [hs] at hread
        exact hread
      | cons t others => exact tells_reject site _ _ _
  | atLeastOne choices =>
    have hall := tells_choices site config choices
    simp only [pull, draws, faults, reads, lack?]
    cases hchoices : presentChoices config choices with
    | nil => exact tells_reject site _ _ _
    | cons s others =>
      rw [hchoices] at hall
      exact hall

end Reading

/-! ## Rules that hold -/

section Met

variable {config : Value}

theorem mem_presentChoices {choices : List Setting} {s : Setting}
    (h : s ∈ presentChoices config choices) : (config.field? s.field).isSome :=
  (List.mem_filter.mp h).2

theorem Rule.isSome_of_mem_reads {r : Rule} {s : Setting} (h : s ∈ r.reads config) :
    (config.field? s.field).isSome := by
  cases r with
  | required t | optional t | atLeastOne choices => exact mem_presentChoices h
  | exactlyOne choices =>
    rw [reads] at h
    split at h
    · exact mem_presentChoices h
    · cases h
  | supplied x => cases h

theorem Rule.faults_eq_nil_iff {element : String} {r : Rule} :
    r.faults element config = [] ↔
      r.lack? element config = none ∧ ∀ s ∈ r.reads config, config.HasText s.field := by
  rw [faults, List.append_eq_nil_iff, Option.toList_eq_nil_iff, Option.map_eq_none_iff,
    List.filterMap_eq_nil_iff]
  refine and_congr_right fun _ => forall₂_congr fun s hs => ?_
  exact Value.misfit?_eq_none_iff (isSome_of_mem_reads hs)

theorem Rule.length_faults (element : String) (r : Rule) :
    (r.faults element config).length =
      (r.lack? element config).toList.length +
        (r.reads config).countP fun s => ¬ config.HasText s.field := by
  rw [faults, List.length_append, List.length_filterMap_eq_countP]
  congr 1
  · cases r.lack? element config <;> rfl
  · refine List.countP_congr fun s hs => ?_
    have hmisfit := Value.misfit?_eq_none_iff (isSome_of_mem_reads hs)
    rw [decide_eq_true_iff, ← hmisfit, Option.isSome_iff_ne_none]

/-- A rule holds exactly when nothing is wrong by it. -/
theorem Rule.met_iff (element : String) (r : Rule) :
    r.Met config ↔ r.faults element config = [] := by
  rw [faults_eq_nil_iff]
  cases r with
  | supplied x => simp [Met, lack?, reads]
  | required s =>
    cases hfield : config.field? s.field with
    | none => simp [Met, lack?, hfield, Value.not_hasText hfield]
    | some v => simp [Met, lack?, reads, presentChoices, hfield]
  | optional s =>
    cases hfield : config.field? s.field with
    | none => simp [Met, lack?, reads, presentChoices, hfield]
    | some v => simp [Met, lack?, reads, presentChoices, hfield]
  | exactlyOne choices =>
    rw [Met, lack?, reads]
    match presentChoices config choices with
    | [] => simp
    | [s] => simp
    | s :: t :: others => simp
  | atLeastOne choices =>
    rw [Met, lack?, reads]
    match presentChoices config choices with
    | [] => simp
    | s :: others => simp

end Met

/-! ## Forms -/

namespace Form

/-- All rules of a form hold. -/
def Fits (f : Form) (config : Value) : Prop := ∀ r ∈ f.rules, r.Met config

instance (f : Form) (config : Value) : Decidable (f.Fits config) :=
  inferInstanceAs (Decidable (∀ r ∈ f.rules, r.Met config))

/-- What is wrong by the rules of a form, rule by rule. -/
def faults (f : Form) (config : Value) : List (Problem × Span) :=
  f.rules.flatMap (Rule.faults f.element config)

/-- The attributes that the rules of a form give, rule by rule. -/
def draws (f : Form) (config : Value) : List Pull := f.rules.flatMap (Rule.draws config)

/-- The element that a form gives when its rules hold. -/
def filled (f : Form) (config : Value) : Element where
  name := f.element
  attributes := arrange (f.draws config)

variable (site : Site) (f : Form) (config : Value)

theorem fits_iff : f.Fits config ↔ f.faults config = [] := by
  rw [Fits, faults, List.flatMap_eq_nil_iff]
  exact forall₂_congr fun r _ => r.met_iff f.element

/-- There is one fault for each rule that lacks something, and one for each field that is
    read and no single text. -/
theorem length_faults :
    (f.faults config).length =
      (f.rules.filterMap (Rule.lack? f.element config)).length +
        (f.rules.flatMap (Rule.reads config)).countP fun s => ¬ config.HasText s.field := by
  rw [faults, List.filterMap_eq_flatMap_toList]
  induction f.rules with
  | nil => rfl
  | cons r rs ih =>
    simp only [List.flatMap_cons, List.length_append, List.countP_append, ih, r.length_faults]
    omega

theorem tells_pulls :
    Tells (f.pulls site config) (f.draws config) (site.diagnosticsOf (f.faults config)) := by
  have hall := tells_all (fun r => Rule.tells_pull site config f.element r) f.rules
  rw [faults, Site.diagnosticsOf, List.map_flatMap]
  exact hall

/-- A form gives its element when nothing is wrong, and reports every fault otherwise. -/
theorem tells_read :
    Tells (f.read site config) (f.filled config) (site.diagnosticsOf (f.faults config)) := by
  have hread : f.read site config = (fun pulls =>
      { name := f.element, attributes := arrange pulls }) <$> f.pulls site config := by
    rw [map_eq_pure_bind]
    rfl
  rw [hread]
  exact (f.tells_pulls site config).map _

theorem value_read :
    (f.read site config).run.value = if f.Fits config then some (f.filled config) else none := by
  rw [f.tells_read site config, Site.diagnosticsOf, List.isEmpty_map]
  exact if_congr (List.isEmpty_iff.trans (f.fits_iff config).symm) rfl rfl

theorem diagnostics_read :
    (f.read site config).run.diagnostics = site.diagnosticsOf (f.faults config) := by
  rw [f.tells_read site config]

variable {site f config}

theorem diagnostics_read_of_fits (h : f.Fits config) :
    (f.read site config).run.diagnostics = [] := by
  rw [diagnostics_read, (f.fits_iff config).mp h]
  rfl

/-- A configuration that fits is read without a report. -/
theorem run_read_bind {α : Type} (h : f.Fits config) (g : Element → Attempt α) :
    (f.read site config >>= g).run = (g (f.filled config)).run := by
  have hread : (f.read site config).run.value = some (f.filled config) := by
    rw [value_read, if_pos h]
  rw [run_bind_some g hread, diagnostics_read_of_fits h]
  rfl

theorem eq_filled {e : Element} (h : (f.read site config).run.value = some e) :
    f.Fits config ∧ e = f.filled config := by
  rw [value_read] at h
  split at h
  · rename_i hfits
    exact ⟨hfits, (Option.some.inj h).symm⟩
  · cases h

end Form

/-! ## Operations that are described by a form -/

section Operations

variable {site : Site} {b : Bindings} {schema : Schema} {call : Call} {a : Argument}
  {config : Value}

/-- One argument is neither too few nor too many. -/
theorem Schema.run_read (hcall : call.arguments = [a])
    (hconfig : (site.configuration b call schema.type a).run.value = some config) :
    (schema.read site b call).run =
      { value := (schema.form.readTiers site schema.tiers config).run.value
        diagnostics := (site.configuration b call schema.type a).run.diagnostics ++
          (schema.form.readTiers site schema.tiers config).run.diagnostics } := by
  have hcount : site.checkCount call
      { least := if schema.omissible then 0 else 1, most := some 1 } = pure () := by
    rw [Site.checkCount, hcall]
    cases schema.omissible <;> rfl
  rw [Schema.read, hcount, pure_bind, hcall]
  exact run_bind_some _ hconfig

/-- An operation that is described by a form alone, called with a configuration that it
    accepts, appends one element if all rules hold, and no element otherwise. Behind what
    the argument itself made it report, it reports every fault once: one for each rule that
    lacks a field or has the wrong number of choices, one for each field that is read and
    no single text, and so none exactly if all rules hold. -/
theorem Draft.add_configured {d : Draft} (hflat : schema.tiers = []) (hcall : call.arguments = [a])
    (hconfig : (site.configuration d.bindings call schema.type a).run.value = some config) :
    let after := d.add (.ofNode ((Operation.configured schema).run site d.bindings call))
    let form := schema.form
    (form.Fits config → after.element = d.element.addElement (form.filled config)) ∧
      (¬ form.Fits config → after.element = d.element) ∧
      after.diagnostics = d.diagnostics ++
        ((site.configuration d.bindings call schema.type a).run.diagnostics ++
          site.diagnosticsOf (form.faults config)) ∧
      (form.faults config).length =
        (form.rules.filterMap (Rule.lack? form.element config)).length +
          (form.rules.flatMap (Rule.reads config)).countP (fun s => ¬ config.HasText s.field) ∧
      (form.Fits config ↔ form.faults config = []) := by
  intro after form
  have hrun := Schema.run_read hcall hconfig
  rw [hflat, Form.readTiers] at hrun
  have hnodes : after.element = d.element.append
      ((if form.Fits config then some (form.filled config) else none).map
        Element.toNode).toList := by
    simp only [after, form, Draft.add, Emission.ofNode, Operation.run, value_map, hrun,
      Form.value_read]
  refine ⟨fun hfits => ?_, fun hfits => ?_, ?_, form.length_faults config, form.fits_iff config⟩
  · rw [hnodes, if_pos hfits]
    rfl
  · rw [hnodes, if_neg hfits]
    exact Element.append_nil _
  · simp only [after, form, Draft.add, Emission.ofNode, Operation.run, diagnostics_map, hrun,
      Form.diagnostics_read]

end Operations

namespace Certificate

/-- A field that is set to a text. -/
def field (name text : String) : FieldValue :=
  .mk name (.literal { kind := .string, value := text, span := default }) default

/-- A configuration with two certificates, and with a password that is a list. -/
def argument : Argument :=
  .mk none (.object (some "CertificateAuthenticationConfig") none
    (.fields [field "Thumbprint" "ab", .mk "Password" (.array none [] default) default,
      field "Body" "cd"]) default) default

/-- The configuration as a value. -/
def config : Value :=
  .named (some "CertificateAuthenticationConfig")
    [("Thumbprint", .single "ab" default), ("Password", .positional none [] default),
      ("Body", .single "cd" default)] default

/-- The call with this configuration. -/
def call : Call where
  method := "AuthenticationCertificate"
  arguments := [argument]
  span := default

end Certificate

/-- Neither rule holds, and each is reported although the other fails. -/
theorem Draft.add_configured_conflict :
    let d : Draft := { element := { name := "inbound" } }
    let after := d.add
      (.ofNode ((Operation.configured certificateSchema).run default d.bindings Certificate.call))
    certificateSchema.tiers = [] ∧ Certificate.call.arguments = [Certificate.argument] ∧
      (Site.configuration default d.bindings Certificate.call certificateSchema.type
        Certificate.argument).run.value = some Certificate.config ∧
      (certificateSchema.form.faults Certificate.config).map (·.1) =
        [.onlyOneOf "authentication-certificate" ["Thumbprint", "Body"],
          .notSingle (.field "Password")] ∧
      after.element = d.element ∧ after.diagnostics.length = 2 := by
  intro d after
  have hconfig : (Site.configuration default d.bindings Certificate.call certificateSchema.type
      Certificate.argument).run.value = some Certificate.config := by rfl
  obtain ⟨-, hnone, hreports, hcount, -⟩ :=
    @Draft.add_configured default certificateSchema _ _ _ d rfl rfl hconfig
  refine ⟨rfl, rfl, hconfig, by decide, hnone (by decide), ?_⟩
  rw [hreports]
  rfl

end GatewayPolicy
