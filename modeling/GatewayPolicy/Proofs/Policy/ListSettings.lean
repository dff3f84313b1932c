import GatewayPolicy.Policy.Operation.Table
import GatewayPolicy.Proofs.Policy.SourceOrder
import GatewayPolicy.Proofs.Policy.Tiers

/-! # Values in the place of lists

  Some values become children: the values of a header, the addresses and ranges of a filter,
  the headers of a response. Each ought to be a list, with one child for every entry. An entry
  that cannot be read is reported. A value that is no list has no entries, so nothing is read
  and nothing is reported: it is lost.

  - `Position.suits` says whether a value has the shape that its position asks for.
  - `Offer` is a value in a position, with the children that it gives and the reports.
  - `ListOperation` lists the operations with such positions, `ListOperation.offers` the
    values that a call offers, and `Compound.offers` those of a configuration.
  - `ListOperation.run_offers` is the result: children and reports of a call are those of
    its entries, every entry gives one or the other, and a value gives neither exactly if it
    has not the shape of its position or is a list without entries.
-/

namespace GatewayPolicy

open Attempt

/-! ## Positions -/

namespace Position

/-- Whether the position is there for a list. -/
def isList : Position → Bool
  | texts _ | entries _ => true
  | part _ => false

/-- Whether a value has the shape that the position asks for. Texts may be given as a list or
    as one text, entries only as a list. -/
def suits : Position → Value → Bool
  | texts _, v => v.text?.isSome || v.isList
  | entries _, v => v.isList
  | part _, _ => true

/-- A value has no entries if its shape is wrong, or if it is a list that has none. -/
theorem entriesOf_eq_nil_iff {p : Position} (hp : p.isList = true) (v : Value) :
    p.entriesOf v = [] ↔ p.suits v = false ∨ v.isList = true ∧ v.elements = [] := by
  cases p with
  | part read => cases hp
  | texts child =>
    cases v <;> simp [entriesOf, suits, Value.text?, Value.elements, Value.isList]
  | entries read =>
    cases v <;> simp [entriesOf, suits, Value.elements, Value.isList]

end Position

/-! ## Offers -/

/-- A value that is offered in a position. -/
structure Offer where
  position : Position
  value : Value
  /-- What was reported when the value was taken. -/
  reports : List Diagnostic := []

namespace Offer

/-- The entries of the value. -/
def entries (s : Offer) : List Value := s.position.entriesOf s.value

/-- The children that the entries become. -/
def children (site : Site) (s : Offer) : List Node := s.position.children site s.value

/-- What is reported of the entries. -/
def complaints (site : Site) (s : Offer) : List Diagnostic := s.position.complaints site s.value

/-- What an offer gives, and what it does not tell. -/
structure Told (site : Site) (s : Offer) : Prop where
  /-- An entry becomes one child, or it is reported. -/
  entry : ∀ v ∈ s.entries, (s.position.readEntry site v).run.value = none →
    (s.position.readEntry site v).run.diagnostics ≠ []
  /-- In the place of a list, a value gives neither a child nor a report exactly if its shape
      is wrong or it is a list without entries. -/
  silent : s.position.isList = true →
    (s.children site = [] ∧ s.complaints site = [] ↔
      s.position.suits s.value = false ∨ s.value.isList = true ∧ s.value.elements = [])

theorem told_of_accounted {site : Site} {s : Offer}
    (h : ∀ v, Accounted (s.position.readEntry site v)) : s.Told site where
  entry v _ := h v
  silent hlist := by
    rw [← Position.entriesOf_eq_nil_iff hlist]
    constructor
    · rintro ⟨hchildren, hcomplaints⟩
      by_contra hentries
      -- an entry that is there cannot do without both
      obtain ⟨v, hv⟩ := List.exists_mem_of_ne_nil _ hentries
      have hnone := List.filterMap_eq_nil_iff.mp hchildren v hv
      exact h v hnone (List.flatMap_eq_nil_iff.mp hcomplaints v hv)
    · intro hentries
      rw [children, complaints, Position.children, Position.complaints, hentries]
      exact ⟨rfl, rfl⟩

end Offer

/-! ## Configurations -/

/-- A field as an offer, if it is there. Of fields of one name the first is offered. -/
def Value.offer? (config : Value) (field : String) (p : Position) : Option Offer :=
  (config.field? field).map fun v => { position := p, value := v }

/-- The values that a configuration offers. -/
def Compound.offers (k : Compound) (config : Value) : List Offer :=
  k.childFields.filterMap fun b => config.offer? b.setting.field b.position

section Compounds

variable {site : Site} {config : Value} {e : Element} {k : Compound}

/-- What each offer gives comes from the field that it is the value of. -/
theorem Compound.flatMap_offers {α : Type} (f : Position → Value → List α) :
    ((k.offers config).flatMap fun s => f s.position s.value) =
      k.childFields.flatMap fun b =>
        ((config.field? b.setting.field).map (f b.position)).getD [] := by
  rw [Compound.offers, List.filterMap_eq_flatMap_toList, List.flatMap_assoc]
  refine List.flatMap_congr fun b _ => ?_
  rw [Value.offer?]
  cases config.field? b.setting.field with
  | none => rfl
  | some v => exact List.append_nil _

/-- An element that is built has the children that are offered, and all that is reported is
    what is reported of them. -/
theorem Compound.offers_read (h : (k.read site config).run.value = some e) :
    e.children = (k.offers config).flatMap (Offer.children site) ∧
      (k.read site config).run.diagnostics =
        (k.offers config).flatMap (Offer.complaints site) := by
  obtain ⟨⟨late, -, rfl⟩, hreports⟩ := Compound.read_eq h
  exact ⟨(Compound.flatMap_offers (Position.children site)).symm,
    hreports.trans (Compound.flatMap_offers (Position.complaints site)).symm⟩

theorem Compound.reports_eq_nil {s : Offer} (hs : s ∈ k.offers config) : s.reports = [] := by
  obtain ⟨p, -, hs⟩ := List.mem_filterMap.mp hs
  obtain ⟨v, -, rfl⟩ := Option.map_eq_some_iff.mp hs
  rfl

/-- What a configuration offers is told. -/
theorem Compound.told_offers (k : Compound) {s : Offer} (hs : s ∈ k.offers config) :
    s.Told site := by
  obtain ⟨⟨setting, p⟩, hp, hs⟩ := List.mem_filterMap.mp hs
  obtain ⟨v, -, rfl⟩ := Option.map_eq_some_iff.mp hs
  apply Offer.told_of_accounted
  intro entry
  have htexts : ∀ child, Accounted ((Position.texts child).readEntry site entry) :=
    fun child => (site.accounted_singleText .value entry).map _
  cases k with
  | headerCheck | responseHeader =>
    obtain ⟨-, rfl⟩ : setting = _ ∧ p = _ := by simpa [Compound.childFields] using hp
    exact htexts _
  | addressFilter =>
    obtain ⟨-, rfl⟩ | ⟨-, rfl⟩ : setting = _ ∧ p = _ ∨ setting = _ ∧ p = _ := by
      simpa [Compound.childFields] using hp
    · exact htexts _
    · exact (addressRangeForm.accounted_read site entry).map _
  | response =>
    obtain ⟨-, rfl⟩ | ⟨-, rfl⟩ | ⟨-, rfl⟩ :
        setting = _ ∧ p = _ ∨ setting = _ ∧ p = _ ∨ setting = _ ∧ p = _ := by
      simpa [Compound.childFields] using hp
    · exact (responseStatusForm.accounted_read site entry).map _
    · exact (accounted_readResponseHeader site entry).map _
    · exact (accounted_readResponseBody site entry).map _

end Compounds

/-! ## Calls -/

section Calls

variable {site : Site} {b : Bindings} {call : Call}

/-- An argument as an offer of values. -/
def Argument.offer (site : Site) (b : Bindings) (a : Argument) : Offer where
  position := .texts "value"
  value := (extract site b a.value).value
  reports := (extract site b a.value).diagnostics

/-- The values that the configuration of a call offers. -/
def Compound.offersOf (k : Compound) (site : Site) (b : Bindings) (call : Call) : List Offer :=
  (call.arguments.take 1).flatMap fun a => k.offers (extract site b a.value).value

/-- The node that is given has the children that are offered. All that is reported is what
    the first argument reports, and what each offer does. -/
def Call.Composes (site : Site) (b : Bindings) (call : Call) (offers : List Offer)
    (given : Reported (Option Node)) : Prop :=
  ∀ node, given.value = some node →
    ∃ (first : Argument) (others : List Argument) (e : Element),
      call.arguments = first :: others ∧ node = e.toNode ∧
        e.children = offers.flatMap (Offer.children site) ∧
        given.diagnostics = (extract site b first.value).diagnostics ++
          offers.flatMap fun s => s.reports ++ s.complaints site

theorem Site.diagnostics_checkCount {range : ArgumentRange} {u : Unit}
    (h : (site.checkCount call range).run.value = some u) :
    (site.checkCount call range).run.diagnostics = [] := by
  unfold Site.checkCount at h ⊢
  split at h
  · rename_i hallows
    rw [if_pos hallows]
    rfl
  · cases h

/-- A text that is taken reports what its argument does. -/
theorem Site.diagnostics_textArgument {a : Argument} {text : String}
    (h : (site.textArgument b a).run.value = some text) :
    (site.textArgument b a).run.diagnostics = (extract site b a.value).diagnostics := by
  rw [Site.textArgument, run_lift_bind] at h ⊢
  rw [Site.diagnostics_singleText h, List.append_nil]

/-- A configuration that is taken reports what its argument does. -/
theorem Site.diagnostics_configuration {expected : String} {a : Argument} {config : Value}
    (h : (site.configuration b call expected a).run.value = some config) :
    (site.configuration b call expected a).run.diagnostics =
      (extract site b a.value).diagnostics := by
  unfold Site.configuration at h ⊢
  split at h
  · rw [run_lift_bind] at h ⊢
    split at h
    · simp
    · split at h
      · rename_i htype
        rw [if_pos htype]
        simp
      · cases h
  · cases h

/-- An argument gives the children that it offers, and reports first what its value does. -/
theorem Argument.texts_offer (a : Argument) :
    List.map (textChild "value") <$> (extract site b a.value >>= site.texts) =
      { value := (a.offer site b).children site
        diagnostics := (a.offer site b).reports ++ (a.offer site b).complaints site } := by
  rw [map_bind]
  exact congrArg (fun x : Reported (List Node) =>
    { x with diagnostics := (a.offer site b).reports ++ x.diagnostics })
    (texts_outcome "value" (extract site b a.value).value)

theorem entryValues_offers (as : List Argument) :
    entryValues site b as =
      { value := (as.map (Argument.offer site b)).flatMap (Offer.children site)
        diagnostics := (as.map (Argument.offer site b)).flatMap fun s =>
          s.reports ++ s.complaints site } := by
  have hvalue : (Reported.collect (fun a => extract site b a.value >>= site.texts)
      as).value.flatten.map (textChild "value") =
      (as.map (Argument.offer site b)).flatMap (Offer.children site) := by
    rw [Reported.value_collect, List.map_flatten, List.map_map, List.flatMap_map, List.flatMap_def]
    congr 1
    exact List.map_congr_left fun a _ => congrArg Reported.value (Argument.texts_offer a)
  have hreports : (Reported.collect (fun a => extract site b a.value >>= site.texts)
      as).diagnostics =
      (as.map (Argument.offer site b)).flatMap fun s => s.reports ++ s.complaints site := by
    rw [Reported.diagnostics_collect, List.flatMap_map]
    refine List.flatMap_congr fun a _ => ?_
    rw [← Reported.diagnostics_map (List.map (textChild "value")), Argument.texts_offer]
  rw [← hvalue, ← hreports]
  exact congrArg (Reported.mk _) (List.append_nil _)

/-- The arguments behind the first are offered, and become the children of the entry. -/
theorem readEntry_composes (element action : String) (takesValues : Bool) :
    call.Composes site b (call.arguments.tail.map (Argument.offer site b))
      (Element.toNode <$> readEntry site b call element action takesValues).run := by
  intro node hnode
  obtain ⟨e, he, rfl⟩ := Attempt.value_map_eq_some hnode
  rw [diagnostics_map]
  obtain ⟨u, hu, hrest⟩ := Attempt.value_bind_eq_some he
  obtain ⟨first, others, harguments⟩ := Site.exists_argument hu (by cases takesValues <;> rfl)
  -- the count was right, so the name reports first, and then the values behind it
  rw [readEntry, run_bind_some _ hu, Site.diagnostics_checkCount hu]
  rw [harguments] at hrest ⊢
  obtain ⟨name, hname, hvalues⟩ := Attempt.value_bind_eq_some hrest
  rw [run_bind_some _ hname, Site.diagnostics_textArgument hname]
  rw [run_lift_bind, entryValues_offers] at hvalues ⊢
  obtain rfl := Option.some.inj hvalues
  exact ⟨first, others, _, rfl, rfl, rfl, by simp⟩

/-- A configuration offers the children of its element. -/
theorem Compound.composes (k : Compound) (expected : String) :
    call.Composes site b (k.offersOf site b call)
      (do
        let config ← site.onlyConfiguration b call expected
        Element.toNode <$> k.read site config : Attempt Node).run := by
  intro node hnode
  obtain ⟨config, hconfig, hread⟩ := Attempt.value_bind_eq_some hnode
  obtain ⟨e, he, rfl⟩ := Attempt.value_map_eq_some hread
  obtain ⟨u, hu, hrest⟩ := Attempt.value_bind_eq_some hconfig
  obtain ⟨first, others, harguments⟩ := Site.exists_argument hu rfl
  rw [harguments] at hrest
  obtain rfl := Site.value_configuration hrest
  obtain ⟨hchildren, hreports⟩ := Compound.offers_read he
  have hfirst : (site.onlyConfiguration b call expected).run.diagnostics =
      (extract site b first.value).diagnostics := by
    rw [Site.onlyConfiguration, run_bind_some _ hu, Site.diagnostics_checkCount hu, harguments]
    exact Site.diagnostics_configuration hrest
  -- fields were taken together with their configuration, and report nothing on their own
  have hsilent : ((k.offers (extract site b first.value).value).flatMap fun s =>
      s.reports ++ s.complaints site) =
      (k.offers (extract site b first.value).value).flatMap (Offer.complaints site) :=
    List.flatMap_congr fun s hs => by rw [Compound.reports_eq_nil hs, List.nil_append]
  refine ⟨first, others, e, harguments, rfl, ?_, ?_⟩
  · rw [hchildren, Compound.offersOf, harguments]
    simp
  · rw [run_bind_some _ hconfig, diagnostics_map, hfirst, hreports, Compound.offersOf, harguments]
    simp [hsilent]

end Calls

/-! ## Operations -/

/-- What an entry is added to. -/
inductive EntrySubject where
  | header
  | queryParameter
  deriving DecidableEq, Repr

/-- What is done if there is such an entry already. -/
inductive EntryAction where
  | override
  | append
  | skip
  | delete
  deriving DecidableEq, Repr

def EntrySubject.element : EntrySubject → String
  | header => "set-header"
  | queryParameter => "set-query-parameter"

def EntryAction.word : EntryAction → String
  | override => "override"
  | append => "append"
  | skip => "skip"
  | delete => "delete"

/-- An operation some of whose values ought to be lists. -/
inductive ListOperation where
  | entry (subject : EntrySubject) (action : EntryAction)
  | checkHeader
  | ipFilter
  | returnResponse
  deriving DecidableEq, Repr

namespace ListOperation

/-- The name that the operation is called by. -/
def name : ListOperation → String
  | entry .header .override => "SetHeader"
  | entry .header .append => "AppendHeader"
  | entry .header .skip => "SetHeaderIfNotExist"
  | entry .header .delete => "RemoveHeader"
  | entry .queryParameter .override => "SetQueryParameter"
  | entry .queryParameter .append => "AppendQueryParameter"
  | entry .queryParameter .skip => "SetQueryParameterIfNotExist"
  | entry .queryParameter .delete => "RemoveQueryParameter"
  | checkHeader => "CheckHeader"
  | ipFilter => "IpFilter"
  | returnResponse => "ReturnResponse"

/-- What the operation does. -/
def operation : ListOperation → Operation
  | entry subject action => .entry subject.element action.word (action != .delete)
  | checkHeader => .headerCheck
  | ipFilter => .addressFilter
  | returnResponse => .response

/-- The values that a call offers. -/
def offers (site : Site) (b : Bindings) (call : Call) : ListOperation → List Offer
  | entry _ _ => call.arguments.tail.map (Argument.offer site b)
  | checkHeader => Compound.headerCheck.offersOf site b call
  | ipFilter => Compound.addressFilter.offersOf site b call
  | returnResponse => Compound.response.offersOf site b call

/-- These are operations of the table. -/
theorem named?_name (o : ListOperation) : Operation.named? o.name = some o.operation := by
  cases o with
  | entry subject action => cases subject <;> cases action <;> rfl
  | checkHeader | ipFilter | returnResponse => rfl

section Calls

variable {site : Site} {b : Bindings} {call : Call}

theorem composes (o : ListOperation) :
    call.Composes site b (o.offers site b call) (o.operation.run site b call).run := by
  cases o with
  | entry subject action => exact readEntry_composes _ _ _
  | checkHeader => exact Compound.headerCheck.composes "CheckHeaderConfig"
  | ipFilter => exact Compound.addressFilter.composes "IpFilterConfig"
  | returnResponse => exact Compound.response.composes "ReturnResponseConfig"

theorem told_offers (o : ListOperation) {s : Offer} (hs : s ∈ o.offers site b call) :
    s.Told site := by
  have hcompound : ∀ k : Compound, s ∈ k.offersOf site b call → s.Told site := by
    intro k hk
    obtain ⟨a, -, hk⟩ := List.mem_flatMap.mp hk
    exact k.told_offers hk
  cases o with
  | entry subject action =>
    obtain ⟨a, -, rfl⟩ := List.mem_map.mp hs
    exact Offer.told_of_accounted fun v => (site.accounted_singleText .value v).map _
  | checkHeader | ipFilter | returnResponse => exact hcompound _ hs

end Calls

/-- A call that gives no node has reported why. One that gives a node has read each value
    that it offers entry by entry: an entry becomes a child, or it is reported, and there
    are no other children and no other reports but those of the first argument. A value in
    the place of a list gives neither a child nor a report exactly if it is a list without
    entries or has the wrong shape: an object where texts are meant, anything but a list
    where ranges or headers are meant. So a value of the wrong shape is always lost. The same
    holds of the values in each header of a response. -/
theorem run_offers (o : ListOperation) (site : Site) (b : Bindings) (call : Call) :
    let run := (o.operation.run site b call).run
    Operation.named? o.name = some o.operation ∧
      (run.value = none → run.diagnostics ≠ []) ∧
      call.Composes site b (o.offers site b call) run ∧
      (∀ s ∈ o.offers site b call, s.Told site) ∧
      ∀ header, (∀ e, (readResponseHeader site header).run.value = some e →
          e.children =
              (Compound.responseHeader.offers header).flatMap (Offer.children site) ∧
            (readResponseHeader site header).run.diagnostics =
              (Compound.responseHeader.offers header).flatMap (Offer.complaints site)) ∧
        ∀ s ∈ Compound.responseHeader.offers header, s.Told site := by
  intro run
  refine ⟨o.named?_name, o.operation.accounted_run site b call, o.composes,
    fun s hs => o.told_offers hs, fun header => ⟨fun e he => ?_, fun s hs => ?_⟩⟩
  · exact @Compound.offers_read site header e .responseHeader he
  · exact Compound.responseHeader.told_offers hs

/-- The call `IpFilter(new IpFilterConfig { Action = "allow", AddressRanges = new AddressRange
    { From = "10.1.0.0", To = "10.1.255.255" } })`. -/
def singleRangeCall : Call where
  method := "IpFilter"
  arguments :=
    [.mk none (.object (some "IpFilterConfig") none
      (.fields [.mk "Action" (text "allow") default,
        .mk "AddressRanges" (.object (some "AddressRange") none
          (.fields [.mk "From" (text "10.1.0.0") default,
            .mk "To" (text "10.1.255.255") default]) default) default]) default) default]
  span := default
where
  text (s : String) : Expr := .literal { kind := .string, value := s, span := default }

/-- The range is offered, but it is not in the filter, and nothing is reported. -/
theorem run_offers_singleRange :
    let x := (ipFilter.operation.run default [] singleRangeCall).run
    x.value = some (Element.toNode { name := "ip-filter", attributes := [⟨"action", "allow"⟩] }) ∧
      x.diagnostics = [] ∧
      ∃ s ∈ ipFilter.offers default [] singleRangeCall,
        s.value.fields.map Prod.fst = ["From", "To"] ∧
          s.children default = [] ∧ s.complaints default = [] := by
  intro x
  obtain ⟨-, -, hcomposes, htold, -⟩ := ipFilter.run_offers default [] singleRangeCall
  have hvalue : x.value =
      some (Element.toNode { name := "ip-filter", attributes := [⟨"action", "allow"⟩] }) := rfl
  obtain ⟨first, others, e, harguments, -, -, hreports⟩ := hcomposes _ hvalue
  cases harguments
  have hmem : (ipFilter.offers default [] singleRangeCall).get ⟨0, by decide⟩ ∈
      ipFilter.offers default [] singleRangeCall := List.get_mem _ _
  refine ⟨hvalue, hreports, _, hmem, rfl, ?_⟩
  exact ((htold _ hmem).silent rfl).mpr (.inl rfl)

end ListOperation

end GatewayPolicy
