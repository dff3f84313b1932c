import GatewayPolicy.Proofs.Policy.Arrangement

/-! # Which output follows the order of the fields

  Attributes that a form reads are written in the order of the fields. Some elements have
  more than a form: children that come from further fields, and an attribute that is put
  behind those of the form. These are appended field by field, in an order that is fixed by
  the operation, so the output follows the order of the fields only if the fields happen to
  be written in that order.

  - `Position` says how a value becomes children, one for each of its entries.
  - `Compound` lists the elements that are made so, with the fields that they append.
  - `Value.InOrder` says that output follows the order of the fields it comes from.
  - `Form.inOrder_filled`: what a form reads is always in order.
  - `Compound.read_inOrder` gives the condition for each element, and
    `Compound.read_inOrder_ranges` an address filter that does not meet it.
-/

namespace GatewayPolicy

open Attempt

/-! ## Order of fields -/

namespace Value

/-- One field does not stand behind another; a field that is not there stands nowhere. -/
def NotAfter (config : Value) (field other : String) : Prop :=
  ∀ i j, config.fieldIndex? field = some i → config.fieldIndex? other = some j → i ≤ j

/-- What has these names, each from the field that is set to it, is in the order of the
    fields. -/
def InOrder (config : Value) (settings : List Setting) (names : List String) : Prop :=
  names.Pairwise fun x y => ∀ s ∈ settings, ∀ t ∈ settings, s.target = x → t.target = y →
    config.NotAfter s.field t.field

theorem notAfter_self (config : Value) (field : String) : config.NotAfter field field := by
  intro i j hi hj
  rw [hi] at hj
  exact Nat.le_of_eq (Option.some.inj hj)

end Value

/-- The settings that a form reads. -/
def Form.settings (f : Form) : List Setting := f.rules.flatMap Rule.settings

theorem Setting.eq_of_target {settings : List Setting} (h : (settings.map (·.target)).Nodup)
    {s t : Setting} (hs : s ∈ settings) (ht : t ∈ settings) (htarget : s.target = t.target) :
    s = t :=
  List.inj_on_of_nodup_map h hs ht htarget

section Forms

variable {config : Value} {f : Form}

theorem Form.not_supplied_mem (hf : f.onlyReads = true) {x : Attribute} :
    Rule.supplied x ∉ f.rules := by
  intro hx
  cases List.all_eq_true.mp hf _ hx

/-- What a form reads is written in the order of the fields. -/
theorem Form.inOrder_filled (hf : f.onlyReads = true)
    (htargets : (f.settings.map (·.target)).Nodup) :
    config.InOrder f.settings ((f.filled config).attributes.map (·.name)) := by
  obtain ⟨written, harranged, hwritten⟩ := arrange_arranged (f.draws config)
  have hsorted := List.pairwise_filterMap.mp harranged.sorted
  rw [Form.filled, hwritten, Value.InOrder, List.map_map, List.pairwise_map]
  refine hsorted.imp_of_mem ?_
  intro p q hp hq hpq s hs t ht hsp htq i j hi hj
  -- both were read from fields, at the indices of their settings
  have hstems : ∀ p ∈ written, p.StemsFrom config f.rules := fun p hp =>
    Form.stemsFrom_of_mem_draws (harranged.perm.mem_iff.mp hp)
  have hindex : ∀ p ∈ written, ∀ s ∈ f.settings, s.target = p.pulled.name →
      ∀ i, config.fieldIndex? s.field = some i → ∃ x, p.indexed? = some (i, x) := by
    intro p hp s hs htarget i hi
    cases p with
    | supplied x => exact absurd (hstems _ hp) (Form.not_supplied_mem hf)
    | fromField k x =>
      obtain ⟨s', hs', htarget', hk, -⟩ := hstems _ hp
      obtain rfl := Setting.eq_of_target htargets hs hs' (htarget.trans htarget'.symm)
      rw [hi] at hk
      exact ⟨x, by rw [Pull.indexed?, Option.some.inj hk]⟩
  obtain ⟨x, hx⟩ := hindex p hp s hs hsp i hi
  obtain ⟨y, hy⟩ := hindex q hq t ht htq j hj
  exact hpq _ hx _ hy

end Forms

/-! ## Elements with more than a form -/

/-- How a value becomes children. -/
inductive Position where
  /-- A list of texts, or one text by itself. Each becomes a child of this name. -/
  | texts (child : String)
  /-- A list of entries, each read by itself. -/
  | entries (read : Site → Value → Attempt Element)
  /-- One value, read as a whole. -/
  | part (read : Site → Value → Attempt Element)

namespace Position

/-- The entries of a value, each of which ought to become a child. -/
def entriesOf : Position → Value → List Value
  | texts _, v => if v.text?.isSome then [v] else v.elements
  | entries _, v => v.elements
  | part _, v => [v]

/-- The child that an entry becomes. -/
def readEntry (site : Site) : Position → Value → Attempt Node
  | texts child, v => textChild child <$> site.singleText .value v
  | entries read, v | part read, v => Element.toNode <$> read site v

/-- The children that the entries of a value become. -/
def children (site : Site) (p : Position) (v : Value) : List Node :=
  (p.entriesOf v).filterMap fun entry => (p.readEntry site entry).run.value

/-- What is reported of the entries of a value. -/
def complaints (site : Site) (p : Position) (v : Value) : List Diagnostic :=
  (p.entriesOf v).flatMap fun entry => (p.readEntry site entry).run.diagnostics

/-- What a value gives and what is reported of it. -/
def outcome (site : Site) (p : Position) (v : Value) : Reported (List Node) where
  value := p.children site v
  diagnostics := p.complaints site v

end Position

/-- A field whose value becomes children of one name. -/
structure ChildField where
  setting : Setting
  position : Position

namespace ChildField

/-- The children that a configuration gives by one of its fields. -/
def given (site : Site) (config : Value) (b : ChildField) : List Node :=
  ((config.field? b.setting.field).map (b.position.children site)).getD []

/-- What is reported of the field. -/
def complaints (site : Site) (config : Value) (b : ChildField) : List Diagnostic :=
  ((config.field? b.setting.field).map (b.position.complaints site)).getD []

/-- What the field gives and what is reported of it. -/
def outcome (site : Site) (config : Value) (b : ChildField) : Reported (List Node) where
  value := b.given site config
  diagnostics := b.complaints site config

end ChildField

/-- An element that has more than the attributes of a form. -/
inductive Compound where
  | headerCheck
  | addressFilter
  | response
  /-- A header of a response. -/
  | responseHeader
  deriving DecidableEq, Repr

namespace Compound

/-- Reads the configuration of the element. -/
def read (site : Site) : Compound → Value → Attempt Element
  | headerCheck => readHeaderCheck site
  | addressFilter => readAddressFilter site
  | response => readResponse site
  | responseHeader => readResponseHeader site

/-- The form that is read first. -/
def form : Compound → Form
  | headerCheck => headerCheckForm
  | addressFilter => addressFilterForm
  | response => responseForm
  | responseHeader => responseHeaderForm

/-- The fields whose attributes are put behind those of the form. -/
def late : Compound → List Setting
  | responseHeader => [⟨"ExistsAction", "exists-action"⟩]
  | headerCheck | addressFilter | response => []

/-- All fields that become attributes. -/
def settings (k : Compound) : List Setting := k.form.settings ++ k.late

/-- The fields that become children, in the order in which the children are appended. -/
def childFields : Compound → List ChildField
  | headerCheck | responseHeader => [⟨⟨"Values", "value"⟩, .texts "value"⟩]
  | addressFilter =>
    [⟨⟨"Addresses", "address"⟩, .texts "address"⟩,
      ⟨⟨"AddressRanges", "address-range"⟩, .entries fun site => addressRangeForm.read site⟩]
  | response =>
    [⟨⟨"Status", "set-status"⟩, .part fun site => responseStatusForm.read site⟩,
      ⟨⟨"Headers", "set-header"⟩, .entries readResponseHeader⟩,
      ⟨⟨"Body", "set-body"⟩, .part readResponseBody⟩]

end Compound

/-! ## What is appended -/

section Appending

variable {site : Site} {config : Value}

/-- Values that are read one by one give and report what each does by itself. -/
theorem collect_entries {α : Type} (read : Value → Attempt α) (g : α → Node) (vs : List Value) :
    (do
      let built ← Reported.collect (fun v => (read v).run) vs
      return (built.filterMap id).map g : Reported (List Node)) =
      { value := vs.filterMap fun v => (g <$> read v).run.value
        diagnostics := vs.flatMap fun v => (g <$> read v).run.diagnostics } := by
  have hvalue : ((Reported.collect (fun v => (read v).run) vs).value.filterMap id).map g =
      vs.filterMap fun v => (g <$> read v).run.value := by
    rw [Reported.value_collect, List.filterMap_map, List.map_filterMap]
    simp only [value_map]
    rfl
  have hreports : (Reported.collect (fun v => (read v).run) vs).diagnostics =
      vs.flatMap fun v => (g <$> read v).run.diagnostics := by
    rw [Reported.diagnostics_collect]
    simp only [diagnostics_map]
  rw [← hvalue, ← hreports]
  exact congrArg (Reported.mk _) (List.append_nil _)

theorem texts_outcome (child : String) (v : Value) :
    List.map (textChild child) <$> site.texts v = (Position.texts child).outcome site v := by
  cases v with
  | single text span => rfl
  | named type fields span => rfl
  | positional type elements span =>
    show List.map (textChild child) <$> site.textsAmong elements = _
    rw [Site.textsAmong, map_bind]
    exact collect_entries (site.singleText .value) (textChild child) elements

theorem fieldTexts_outcome (s : Setting) :
    List.map (textChild s.target) <$> site.fieldTexts config s.field =
      ChildField.outcome site config ⟨s, .texts s.target⟩ := by
  rw [Site.fieldTexts, ChildField.outcome, ChildField.given, ChildField.complaints]
  cases config.field? s.field with
  | none => rfl
  | some v => exact texts_outcome s.target v

/-- The values of a field as children, and what is reported of them. -/
theorem fieldTexts_children (s : Setting) :
    (site.fieldTexts config s.field).value.map (textChild s.target) =
        ChildField.given site config ⟨s, .texts s.target⟩ ∧
      (site.fieldTexts config s.field).diagnostics =
        ChildField.complaints site config ⟨s, .texts s.target⟩ := by
  rw [← Reported.value_map (List.map (textChild s.target)),
    ← Reported.diagnostics_map (List.map (textChild s.target)), fieldTexts_outcome]
  exact ⟨rfl, rfl⟩

theorem readEntries_outcome (s : Setting) (read : Site → Value → Attempt Element) :
    readEntries config s.field (read site) =
      ChildField.outcome site config ⟨s, .entries read⟩ := by
  rw [readEntries, ChildField.outcome, ChildField.given, ChildField.complaints]
  cases config.field? s.field with
  | none => rfl
  | some v => exact collect_entries (read site) Element.toNode v.elements

theorem readPart_outcome (s : Setting) (read : Site → Value → Attempt Element) :
    readPart config s.field (read site) = ChildField.outcome site config ⟨s, .part read⟩ := by
  rw [readPart, ChildField.outcome, ChildField.given, ChildField.complaints]
  cases config.field? s.field with
  | none => rfl
  | some v =>
    have hvalue : ((read site v).run.value.map Element.toNode).toList =
        [v].filterMap fun v => (Element.toNode <$> read site v).run.value := by
      cases hread : (read site v).run.value <;> simp [hread]
    have hreports : (read site v).run.diagnostics ++ [] =
        [v].flatMap fun v => (Element.toNode <$> read site v).run.diagnostics := by
      simp
    exact congr (congrArg Reported.mk hvalue) hreports

theorem Site.diagnostics_singleText {slot : TextSlot} {v : Value} {text : String}
    (h : (site.singleText slot v).run.value = some text) :
    (site.singleText slot v).run.diagnostics = [] := by
  rw [Site.value_singleText] at h
  simp [Site.singleText, h]

/-- What is done with a header is only reported if it is there and no single text. -/
theorem diagnostics_readExistsAction {action : String}
    (h : (readExistsAction site config).run.value = some action) :
    (readExistsAction site config).run.diagnostics = [] := by
  unfold readExistsAction at h ⊢
  split at h
  · rfl
  · obtain ⟨text, htext, -⟩ := Attempt.value_bind_eq_some h
    rw [run_bind_some _ htext, Site.diagnostics_singleText htext]
    rfl

end Appending

section Reading

variable {site : Site} {config : Value} {e : Element} {k : Compound}

theorem Compound.fits_of_read (h : (k.read site config).run.value = some e) :
    k.form.Fits config := by
  cases k with
  | headerCheck | addressFilter | response | responseHeader =>
    obtain ⟨e', he', -⟩ := Attempt.value_bind_eq_some h
    exact (Form.eq_filled he').1

/-- The element is that of the form, with attributes and children behind those that are
    there. The form reports nothing, so all reports are on what is appended to it. -/
theorem Compound.read_eq (h : (k.read site config).run.value = some e) :
    (∃ late : List Attribute, late.map (·.name) = k.late.map (·.target) ∧
      e = { name := k.form.element
            attributes := (k.form.filled config).attributes ++ late
            children := k.childFields.flatMap (ChildField.given site config) }) ∧
      (k.read site config).run.diagnostics =
        k.childFields.flatMap (ChildField.complaints site config) := by
  have hfits := Compound.fits_of_read h
  cases k with
  | headerCheck =>
    have hfits : headerCheckForm.Fits config := hfits
    obtain ⟨hvalues, hreports⟩ := @fieldTexts_children site config ⟨"Values", "value"⟩
    rw [Compound.read, readHeaderCheck, Form.run_read_bind hfits, run_lift_map, hvalues,
      hreports] at h ⊢
    obtain rfl := Option.some.inj h
    refine ⟨⟨[], rfl, ?_⟩, ?_⟩ <;> simp [childFields, Element.append, Form.filled, form]
  | addressFilter =>
    have hfits : addressFilterForm.Fits config := hfits
    obtain ⟨hvalues, hreports⟩ := @fieldTexts_children site config ⟨"Addresses", "address"⟩
    have hranges := @readEntries_outcome site config ⟨"AddressRanges", "address-range"⟩
      fun site => addressRangeForm.read site
    rw [Compound.read, readAddressFilter, Form.run_read_bind hfits, run_lift_bind,
      run_lift_map, hvalues, hreports, hranges] at h ⊢
    obtain rfl := Option.some.inj h
    refine ⟨⟨[], rfl, ?_⟩, ?_⟩ <;>
      simp [childFields, ChildField.outcome, Element.append, Form.filled, form]
  | response =>
    have hfits : responseForm.Fits config := hfits
    have hstatus := @readPart_outcome site config ⟨"Status", "set-status"⟩
      fun site => responseStatusForm.read site
    have hheaders := @readEntries_outcome site config ⟨"Headers", "set-header"⟩ readResponseHeader
    have hbody := @readPart_outcome site config ⟨"Body", "set-body"⟩ readResponseBody
    rw [Compound.read, readResponse, Form.run_read_bind hfits, run_lift_bind,
      run_lift_bind, run_lift_map, hstatus, hheaders, hbody] at h ⊢
    obtain rfl := Option.some.inj h
    refine ⟨⟨[], rfl, ?_⟩, ?_⟩ <;>
      simp [childFields, ChildField.outcome, Element.append, Form.filled, form]
  | responseHeader =>
    have hfits : responseHeaderForm.Fits config := hfits
    obtain ⟨hvalues, hreports⟩ := @fieldTexts_children site config ⟨"Values", "value"⟩
    rw [Compound.read, readResponseHeader, Form.run_read_bind hfits] at h ⊢
    -- the action is an attribute; it is read in front of the values, and it can fail
    obtain ⟨action, haction, -⟩ := Attempt.value_bind_eq_some h
    rw [run_bind_some _ haction, diagnostics_readExistsAction haction, run_lift_map, hvalues,
      hreports] at h ⊢
    obtain rfl := Option.some.inj h
    refine ⟨⟨[⟨"exists-action", action⟩], rfl, ?_⟩, ?_⟩ <;>
      simp [childFields, Element.append, Element.addAttribute, Form.filled, form]

/-! ## Names of children -/

/-- All children that a field can give have the name that belongs to it. -/
def ChildField.Names (b : ChildField) : Prop :=
  ∀ site v, ∀ n ∈ b.position.children site v, n.toElement?.map (·.name) = some b.setting.target

theorem ChildField.names_of_entries {b : ChildField}
    (h : ∀ site v n, (b.position.readEntry site v).run.value = some n →
      n.toElement?.map (·.name) = some b.setting.target) : b.Names := by
  intro site v n hn
  obtain ⟨entry, -, hentry⟩ := List.mem_filterMap.mp hn
  exact h site entry n hentry

theorem ChildField.names_texts (s : Setting) : ChildField.Names ⟨s, .texts s.target⟩ := by
  refine ChildField.names_of_entries fun site v n hn => ?_
  obtain ⟨text, -, rfl⟩ := Attempt.value_map_eq_some hn
  rfl

theorem ChildField.names_built {s : Setting} {read : Site → Value → Attempt Element}
    (h : ∀ site v e, (read site v).run.value = some e → e.name = s.target) :
    ChildField.Names ⟨s, .entries read⟩ ∧ ChildField.Names ⟨s, .part read⟩ := by
  have hbuilt : ∀ site v n, (Element.toNode <$> read site v).run.value = some n →
      n.toElement?.map (·.name) = some s.target := by
    intro site v n hn
    obtain ⟨e, he, rfl⟩ := Attempt.value_map_eq_some hn
    exact congrArg some (h site v e he)
  exact ⟨ChildField.names_of_entries hbuilt, ChildField.names_of_entries hbuilt⟩

theorem Form.name_read {f : Form} (h : (f.read site config).run.value = some e) :
    e.name = f.element := by
  obtain ⟨-, rfl⟩ := Form.eq_filled h
  rfl

theorem name_readResponseBody (h : (readResponseBody site config).run.value = some e) :
    e.name = "set-body" := by
  unfold readResponseBody at h
  split at h
  · cases h
    rfl
  · obtain ⟨e', he', h⟩ := Attempt.value_bind_eq_some h
    have hname := Form.name_read he'
    split at h
    · cases h
    · obtain ⟨t, -, h⟩ := Attempt.value_bind_eq_some h
      cases h
      exact hname

theorem Compound.name_read (h : (k.read site config).run.value = some e) :
    e.name = k.form.element := by
  obtain ⟨⟨late, -, rfl⟩, -⟩ := Compound.read_eq h
  rfl

theorem Compound.names_childFields : ∀ b ∈ k.childFields, b.Names := by
  cases k with
  | headerCheck => exact List.forall_mem_singleton.mpr (ChildField.names_texts _)
  | responseHeader => exact List.forall_mem_singleton.mpr (ChildField.names_texts _)
  | addressFilter =>
    rw [Compound.childFields, List.forall_mem_cons, List.forall_mem_singleton]
    exact ⟨ChildField.names_texts _, (ChildField.names_built fun _ _ _ => Form.name_read).1⟩
  | response =>
    rw [Compound.childFields, List.forall_mem_cons, List.forall_mem_cons, List.forall_mem_singleton]
    refine ⟨(ChildField.names_built fun _ _ _ => Form.name_read).2, ?_,
      (ChildField.names_built fun _ _ _ => name_readResponseBody).2⟩
    exact (ChildField.names_built fun site v e he => Compound.name_read (k := .responseHeader) he).1

theorem ChildField.Names.map_given {b : ChildField} (h : b.Names) :
    ((b.given site config).filterMap Node.toElement?).map (·.name) =
      (b.given site config).map fun _ => b.setting.target := by
  have hgiven : ∀ n ∈ b.given site config, n.toElement?.map (·.name) = some b.setting.target := by
    intro n hn
    rw [ChildField.given] at hn
    cases hfield : config.field? b.setting.field with
    | none =>
      rw [hfield] at hn
      cases hn
    | some v =>
      rw [hfield] at hn
      exact h site v n hn
  rw [List.map_filterMap, ← List.filterMap_eq_map']
  exact List.filterMap_congr hgiven

theorem Compound.names_given :
    ((k.childFields.flatMap (ChildField.given site config)).filterMap Node.toElement?).map
        (·.name) =
      k.childFields.flatMap fun b => (b.given site config).map fun _ => b.setting.target := by
  rw [List.filterMap_flatMap, List.map_flatMap]
  exact List.flatMap_congr fun b hb => (Compound.names_childFields b hb).map_given

/-! ## Order of children -/

/-- Children that are appended field by field are in order exactly if no field that gives
    children stands behind one whose children are appended later. -/
theorem ChildField.inOrder_iff {bs : List ChildField} (h : (bs.map (·.setting.target)).Nodup) :
    config.InOrder (bs.map (·.setting))
        (bs.flatMap fun b => (b.given site config).map fun _ => b.setting.target) ↔
      bs.Pairwise fun b c => b.given site config ≠ [] → c.given site config ≠ [] →
        config.NotAfter b.setting.field c.setting.field := by
  have htargets : ((bs.map (·.setting)).map (·.target)).Nodup := by
    rwa [List.map_map]
  have hmem : ∀ b ∈ bs, b.setting ∈ bs.map (·.setting) := fun b hb => List.mem_map_of_mem hb
  rw [Value.InOrder, List.pairwise_flatMap]
  constructor
  · rintro ⟨-, hacross⟩
    refine hacross.imp_of_mem ?_
    intro b c hb hc hbc hgivenb hgivenc
    obtain ⟨n, hn⟩ := List.exists_mem_of_ne_nil _ hgivenb
    obtain ⟨m, hm⟩ := List.exists_mem_of_ne_nil _ hgivenc
    exact hbc _ (List.mem_map.mpr ⟨n, hn, rfl⟩) _ (List.mem_map.mpr ⟨m, hm, rfl⟩)
      b.setting (hmem b hb) c.setting (hmem c hc) rfl rfl
  · intro hpairs
    refine ⟨?_, hpairs.imp_of_mem ?_⟩
    · -- children of one field come from one field
      intro b hb
      rw [List.pairwise_map]
      refine List.pairwise_of_forall fun n m s hs t ht hsb htb => ?_
      obtain rfl := Setting.eq_of_target htargets hs ht (hsb.trans htb.symm)
      exact config.notAfter_self s.field
    · intro b c hb hc hbc x hx y hy s hs t ht hsx hty
      obtain ⟨n, hn, rfl⟩ := List.mem_map.mp hx
      obtain ⟨m, hm, rfl⟩ := List.mem_map.mp hy
      obtain rfl := Setting.eq_of_target htargets hs (hmem b hb) hsx
      obtain rfl := Setting.eq_of_target htargets ht (hmem c hc) hty
      exact hbc (List.ne_nil_of_mem hn) (List.ne_nil_of_mem hm)

/-! ## Order of attributes -/

/-- The name of a header has to be given. -/
theorem responseHeaderForm_names (h : responseHeaderForm.Fits config) :
    (responseHeaderForm.filled config).attributes.map (·.name) = ["name"] := by
  have htext : config.HasText "Name" := h _ (List.mem_singleton_self _)
  obtain ⟨t, ht⟩ := Option.isSome_iff_exists.mp htext
  obtain ⟨v, hv, -⟩ := Option.bind_eq_some_iff.mp ht
  have hindex : (config.fieldIndex? "Name").isSome := by
    rw [Value.isSome_fieldIndex?, hv]
    rfl
  obtain ⟨i, hi⟩ := Option.isSome_iff_exists.mp hindex
  have hdraws : responseHeaderForm.draws config = [.fromField i ⟨"name", t⟩] := by
    simp [Form.draws, responseHeaderForm, Rule.draws, Rule.reads, presentChoices, Setting.draw?,
      hv, hi, ht]
  rw [Form.filled, hdraws]
  rfl

/-- An element whose attributes all come from its form has them in order. -/
theorem Compound.inOrder_form (hreads : k.form.onlyReads = true)
    (htargets : (k.form.settings.map (·.target)).Nodup) (hnone : k.late = []) :
    config.InOrder k.settings ((k.form.filled config).attributes.map (·.name) ++
        k.late.map (·.target)) ↔
      ∀ s ∈ k.form.settings, ∀ t ∈ k.late, config.NotAfter s.field t.field := by
  rw [Compound.settings, hnone, List.map_nil, List.append_nil, List.append_nil]
  exact iff_of_true (Form.inOrder_filled hreads htargets) fun s _ t ht => nomatch ht

/-- Attributes behind those of the form are in order exactly if their fields are. -/
theorem Compound.inOrder_attributes (h : k.form.Fits config) :
    config.InOrder k.settings ((k.form.filled config).attributes.map (·.name) ++
        k.late.map (·.target)) ↔
      ∀ s ∈ k.form.settings, ∀ t ∈ k.late, config.NotAfter s.field t.field := by
  -- only the header of a response has an attribute behind those of its form
  cases k with
  | headerCheck => exact Compound.inOrder_form rfl (by decide) rfl
  | addressFilter => exact Compound.inOrder_form rfl (by decide) rfl
  | response => exact Compound.inOrder_form rfl (by decide) rfl
  | responseHeader =>
    show config.InOrder _ ((responseHeaderForm.filled config).attributes.map (·.name) ++ _) ↔ _
    rw [responseHeaderForm_names h]
    simp [Value.InOrder, Compound.settings, Compound.form, Compound.late, Form.settings,
      responseHeaderForm, Rule.settings]

/-- The attributes of the form come first and are in the order of their fields; behind them,
    and as children, comes what the operation appends, field by field. So the attributes are
    in the order of the fields exactly if no field of the form stands behind one whose
    attribute is put behind it, and the children exactly if no field that gives children
    stands behind one whose children are appended later. A header check is always in order.
    An address filter is not if the ranges stand in front of the addresses, a response if
    status, headers and body stand in another order, and a header if its action stands in
    front of its name. -/
theorem Compound.read_inOrder (h : (k.read site config).run.value = some e) :
    (∃ late : List Attribute, late.map (·.name) = k.late.map (·.target) ∧
        e.attributes = (k.form.filled config).attributes ++ late) ∧
      e.children = k.childFields.flatMap (ChildField.given site config) ∧
      (e.elements.map (·.name) =
        k.childFields.flatMap fun b => (b.given site config).map fun _ => b.setting.target) ∧
      (config.InOrder k.settings (e.attributes.map (·.name)) ↔
        ∀ s ∈ k.form.settings, ∀ t ∈ k.late, config.NotAfter s.field t.field) ∧
      (config.InOrder (k.childFields.map (·.setting)) (e.elements.map (·.name)) ↔
        k.childFields.Pairwise fun b c => b.given site config ≠ [] → c.given site config ≠ [] →
          config.NotAfter b.setting.field c.setting.field) := by
  have hfits := Compound.fits_of_read h
  obtain ⟨⟨late, hlate, rfl⟩, -⟩ := Compound.read_eq h
  have hnames := @Compound.names_given site config k
  refine ⟨⟨late, hlate, rfl⟩, rfl, hnames, ?_, ?_⟩
  · rw [List.map_append, hlate]
    exact Compound.inOrder_attributes hfits
  · rw [Element.elements, hnames]
    exact ChildField.inOrder_iff (by cases k <;> decide)

end Reading

/-- An address filter whose ranges stand in front of its addresses. -/
def rangesFirst : Value :=
  .named (some "IpFilterConfig")
    [("Action", .single "allow" default),
      ("AddressRanges", .positional none [.named none
        [("From", .single "10.1.0.0" default), ("To", .single "10.1.255.255" default)] default]
        default),
      ("Addresses", .positional none [.single "10.0.0.1" default] default)] default

/-- The addresses are written first all the same. -/
theorem Compound.read_inOrder_ranges :
    ∃ e, (Compound.addressFilter.read default rangesFirst).run.value = some e ∧
      e.elements.map (·.name) = ["address", "address-range"] ∧
      rangesFirst.fieldIndex? "AddressRanges" = some 1 ∧
      rangesFirst.fieldIndex? "Addresses" = some 2 ∧
      ¬ rangesFirst.InOrder (Compound.addressFilter.childFields.map (·.setting))
        (e.elements.map (·.name)) := by
  obtain ⟨e, he⟩ : ∃ e, (Compound.addressFilter.read default rangesFirst).run.value = some e :=
    ⟨_, rfl⟩
  obtain ⟨-, -, hnames, -, hchildren⟩ := Compound.read_inOrder he
  refine ⟨e, he, hnames, by decide, by decide, fun horder => ?_⟩
  have hpairs := (List.pairwise_cons.mp (hchildren.mp horder)).1 _ (List.mem_singleton_self _)
  have hle : 2 ≤ 1 := hpairs (List.cons_ne_nil _ _) (List.cons_ne_nil _ _) 2 1 rfl rfl
  omega

end GatewayPolicy
