import GatewayPolicy.Proofs.Document.Nodes
import GatewayPolicy.Proofs.Policy.Arrangement
import GatewayPolicy.Proofs.Policy.Operations
import Mathlib.Data.List.Flatten
import Mathlib.Data.List.Perm.Subperm

/-! # What operations build

  An operation gives markup or an element. The values in its node are texts of the call or
  words of the operation, and each belongs to one slot. The names of the attributes come from
  the fields of a configuration, from the arguments of a call and from the operation itself,
  and a configuration may hold a field twice, or fields that exclude each other. The children
  of an element are elements of the same make, or there is one text.

  - `Handler.Routes` says which texts a handler of a call writes into which slots,
    and `Handler.Supplies` which words it adds.
  - `Form.targets` lists the names that a form can give, one for each place in its rules;
    `Form.read_targets` says that each place is used at most once.
  - `Node.Built` are the nodes of which tags and values are as claimed, and in which texts
    stand alone. `Handler.run_built` says what handlers build.
  - `Node.built_invariant` is what holds of all nodes of a document.
-/

namespace GatewayPolicy

/-! ## Handlers -/

/-- What a call of an operation is handled by. -/
inductive Handler where
  /-- An operation that stands as a statement. -/
  | statement (o : Operation)
  /-- An operation whose result is bound to a local. -/
  | declaration (o : BoundOperation) (name : String)
  deriving DecidableEq

namespace Handler

/-- The node that a call adds. -/
def run (site : Site) (b : Bindings) (call : Call) : Handler → Attempt Node
  | statement o => o.run site b call
  | declaration o name => Element.toNode <$> o.run site b call name

/-- The forms that a handler reads configurations by. -/
def forms : Handler → List Form
  | statement (.configured schema) => schema.form :: schema.tiers.map (·.form)
  | statement .headerCheck => [headerCheckForm]
  | statement .addressFilter => [addressFilterForm, addressRangeForm]
  | statement .response =>
    [responseForm, responseStatusForm, responseHeaderForm, responseBodyForm]
  | declaration .managedIdentity name => [boundIdentityForm name]
  | declaration .cachedValue name => [cachedValueForm name]
  | _ => []

end Handler

/-- The slot that says what is done with a header of a response that is there already. -/
def Slot.existsAction : Slot := .attributeOf "set-header" "exists-action"

/-- The words that a handler fills slots with on its own. -/
inductive Handler.Supplies : Handler → Slot → String → Prop where
  | rule {h : Handler} {f : Form} {x : Attribute} (hf : f ∈ h.forms)
      (hx : .supplied x ∈ f.rules) : Supplies h (.attributeOf f.element x.name) x.value
  | action {element action : String} {takesValues : Bool} :
      Supplies (.statement (.entry element action takesValues))
        (.attributeOf element "exists-action") action
  | override : Supplies (.statement .response) .existsAction "override"

/-- Which texts a handler writes into which slots. -/
inductive Handler.Routes : Handler → Origin → Slot → Prop where
  | setting {h : Handler} {f : Form} {r : Rule} {s : Setting} (hf : f ∈ h.forms)
      (hr : r ∈ f.rules) (hs : s ∈ r.settings) :
      Routes h (.field s.field) (.attributeOf f.element s.target)
  | entryName {element action : String} {takesValues : Bool} :
      Routes (.statement (.entry element action takesValues)) (.argument 0)
        (.attributeOf element "name")
  | entryValue {element action : String} {takesValues : Bool} {i : Nat} :
      Routes (.statement (.entry element action takesValues)) (.argument (i + 1))
        (.contentOf "value")
  | text {element : String} : Routes (.statement (.text element)) (.argument 0) (.contentOf element)
  | positional {element name : String} {needed i : Nat} {names : List String}
      (hname : names[i]? = some name) :
      Routes (.statement (.positional element needed names)) (.argument i)
        (.attributeOf element name)
  | markup : Routes (.statement .markup) (.argument 0) .markup
  | allowedValue : Routes (.statement .headerCheck) (.field "Values") (.contentOf "value")
  | address : Routes (.statement .addressFilter) (.field "Addresses") (.contentOf "address")
  | headerValue : Routes (.statement .response) (.field "Values") (.contentOf "value")
  | existsAction : Routes (.statement .response) (.field "ExistsAction") .existsAction
  | body : Routes (.statement .response) (.field "Body") (.contentOf "set-body")
  | bodyContent : Routes (.statement .response) (.field "Content") (.contentOf "set-body")

/-- The one slot that a handler does not copy a text to: the action of a response's header is
    put in lower case. -/
def Handler.lowers (h : Handler) (slot : Slot) : Bool :=
  h = .statement .response ∧ slot = .existsAction

/-- A text as a handler writes it into a slot. Markup loses the mark of inline code. -/
def Handler.edit (h : Handler) (slot : Slot) (t : String) : String :=
  if h.lowers slot then Text.lowerCase t else if slot = .markup then plainMarkup t else t

/-- A slot that a handler fills with a word of its own, or with one of some texts. -/
def Handler.Fills (h : Handler) (S : List Source) (slot : Slot) (v : String) : Prop :=
  h.Supplies slot v ∨ ∃ s ∈ S, h.Routes s.origin slot ∧ v = h.edit slot s.text

/-! ## Names that rules give -/

/-- The names of the attributes that a rule can give. -/
def Rule.targets : Rule → List String
  | .supplied x => [x.name]
  | r => r.settings.map (·.target)

/-- The names of the attributes that a form can give. -/
def Form.targets (f : Form) : List String := f.rules.flatMap Rule.targets

/-- The names of the attributes of an element. -/
def Element.attributeNames (e : Element) : List String := e.attributes.map (·.name)

/-- A setting gives an attribute at most once, also when its field is there twice. -/
theorem drawn_targets (config : Value) (ss : List Setting) :
    ((ss.filterMap (Setting.draw? config)).map (·.pulled.name)).Sublist (ss.map (·.target)) := by
  induction ss with
  | nil => exact .refl _
  | cons s ss ih =>
    cases hdraw : s.draw? config with
    | none =>
      rw [List.filterMap_cons_none hdraw]
      exact ih.cons _
    | some p =>
      obtain ⟨index, v, text, -, -, -, rfl⟩ := Setting.draw?_eq_some hdraw
      rw [List.filterMap_cons_some hdraw]
      exact ih.cons_cons _

theorem Rule.draws_targets (config : Value) (r : Rule) :
    ((r.draws config).map (·.pulled.name)).Sublist r.targets := by
  cases r with
  | supplied x => exact .refl _
  | required _ | optional _ | exactlyOne _ | atLeastOne _ =>
    exact (drawn_targets config _).trans ((Rule.reads_sublist config _).map _)

/-- The names of the attributes that a form gives are among its targets, as often as they
    are there. -/
theorem Form.read_targets {site : Site} {f : Form} {v : Value} {e : Element}
    (h : (f.read site v).run.value = some e) : e.attributeNames.Subperm f.targets := by
  obtain ⟨-, rfl⟩ := Form.eq_filled h
  have hdraws : ((f.draws v).map (·.pulled.name)).Sublist f.targets := by
    rw [Form.draws, List.map_flatMap]
    exact .flatMap_right _ fun r _ => r.draws_targets v
  have horder : (f.filled v).attributeNames.Perm ((f.draws v).map (·.pulled.name)) := by
    rw [Element.attributeNames, Form.filled]
    simpa [Function.comp_def] using (arrange_perm (f.draws v)).map (·.name)
  exact ⟨_, horder.symm, hdraws⟩

theorem nodup_of_subperm {α : Type} {l l' : List α} (h : l.Subperm l') (hl : l'.Nodup) :
    l.Nodup := by
  obtain ⟨k, hperm, hsub⟩ := h
  exact hperm.nodup_iff.mp (hl.sublist hsub)

/-! ## Building elements -/

/-- A node that operations can build: markup, or an element that holds one text or nodes that
    are built in this way. What is claimed of tags and of values holds throughout. -/
inductive Node.Built (T : String → List Attribute → Prop) (F : Slot → String → Prop) :
    Node → Prop where
  | raw {markup : String} (value : F .markup markup) : Built T F (.raw markup)
  | text {name t : String} {attributes : List Attribute} (tag : T name attributes)
      (value : F (.contentOf name) t) : Built T F (.element name attributes [.text t])
  | nodes {name : String} {attributes : List Attribute} {ns : List Node}
      (tag : T name attributes) (children : ∀ n ∈ ns, Built T F n) :
      Built T F (.element name attributes ns)

/-- An element without children. -/
structure Element.Fresh (T : String → List Attribute → Prop) (e : Element) : Prop where
  tag : T e.name e.attributes
  children : e.children = []

section Building

variable {T U : String → List Attribute → Prop} {F G : Slot → String → Prop} {e : Element}

theorem Element.Fresh.append (h : e.Fresh T) {ns : List Node} (hns : ∀ n ∈ ns, n.Built T F) :
    (e.append ns).toNode.Built T F := by
  refine .nodes h.tag ?_
  show ∀ n ∈ e.children ++ ns, n.Built T F
  rw [h.children]
  exact hns

theorem Element.Fresh.toNode (h : e.Fresh T) : e.toNode.Built T F := by
  refine .nodes h.tag ?_
  rw [h.children]
  exact List.forall_mem_nil _

theorem Element.Fresh.addText (h : e.Fresh T) {t : String} (ht : F (.contentOf e.name) t) :
    (e.addText t).toNode.Built T F := by
  show Node.Built T F (.element e.name e.attributes (e.children ++ [.text t]))
  rw [h.children]
  exact .text h.tag ht

theorem Node.Built.imp {n : Node} (h : n.Built T F) (hT : ∀ {name as}, T name as → U name as)
    (hF : ∀ {slot v}, F slot v → G slot v) : n.Built U G := by
  induction h with
  | raw value => exact .raw (hF value)
  | text tag value => exact .text (hT tag) (hF value)
  | nodes tag _ ih => exact .nodes (hT tag) ih

theorem Node.Built.filled {n : Node} (h : n.Built T F)
    (hT : ∀ {name as}, T name as → ∀ x ∈ as, F (.attributeOf name x.name) x.value)
    (parent : String) : ∀ p ∈ n.filled parent, F p.1 p.2 := by
  induction h generalizing parent with
  | raw value => exact List.forall_mem_singleton.mpr value
  | @text name t attributes tag value =>
    rw [Node.filled, List.forall_mem_append, List.forall_mem_map]
    exact ⟨hT tag, List.forall_mem_singleton.mpr value⟩
  | @nodes name attributes ns tag _ ih =>
    rw [Node.filled, List.forall_mem_append, List.forall_mem_map]
    refine ⟨hT tag, ?_⟩
    intro p hp
    obtain ⟨n, hn, hp⟩ := Node.mem_filledOfAll.mp hp
    exact ih n hn name p hp

end Building

/-! ## Tags -/

/-- The names that a handler can give to attributes of one element are different. -/
def Handler.namesApart (h : Handler) : Bool :=
  h.forms.all (fun f => decide f.targets.Nodup) &&
    match h with
    | statement (.positional _ _ names) => decide names.Nodup
    | _ => true

/-- What a handler writes into a tag. -/
structure Handler.Tags (h : Handler) (S : List Source) (element : String)
    (attributes : List Attribute) : Prop where
  values : ∀ x ∈ attributes, h.Fills S (.attributeOf element x.name) x.value
  names : h.namesApart = true → (attributes.map (·.name)).Nodup

/-- A node that a handler can build from some texts. -/
abbrev Handler.Builds (h : Handler) (S : List Source) (n : Node) : Prop :=
  n.Built (h.Tags S) (h.Fills S)

section Handling

variable {h : Handler} {S : List Source} {site : Site} {b : Bindings} {call : Call}
  {origin : Origin} {v : Value} {e : Element}

/-- No form of a response writes the action of a header. -/
theorem Handler.lowers_setting {f : Form} (hf : f ∈ h.forms) {r : Rule} (hr : r ∈ f.rules)
    {s : Setting} (hs : s ∈ r.settings) : h.lowers (.attributeOf f.element s.target) = false := by
  by_cases hresponse : h = .statement .response
  · subst hresponse
    have hslots : ∀ f ∈ (Handler.statement .response).forms, ∀ r ∈ f.rules, ∀ s ∈ r.settings,
        Slot.attributeOf f.element s.target ≠ .existsAction := by
      decide
    simp [Handler.lowers, hslots f hf r hr s hs]
  · simp [Handler.lowers, hresponse]

theorem Handler.edit_lowered {slot : Slot} (hslot : h.lowers slot = true) (t : String) :
    h.edit slot t = Text.lowerCase t := if_pos hslot

theorem Handler.edit_copied {slot : Slot} (hslot : h.lowers slot = false) (hmarkup : slot ≠ .markup)
    (t : String) : h.edit slot t = t := by
  unfold Handler.edit
  rw [hslot, if_neg Bool.false_ne_true, if_neg hmarkup]

theorem Handler.edit_markup (t : String) : h.edit .markup t = plainMarkup t := by
  simp [Handler.edit, Handler.lowers, Slot.existsAction]

theorem Element.fresh_bare (name : String) : ({ name } : Element).Fresh (h.Tags S) :=
  ⟨⟨List.forall_mem_nil _, fun _ => List.nodup_nil⟩, rfl⟩

theorem Element.Fresh.addAttribute (hfresh : e.Fresh (h.Tags S)) {name value : String}
    (hnew : name ∉ e.attributeNames) (hvalue : h.Fills S (.attributeOf e.name name) value) :
    (e.addAttribute name value).Fresh (h.Tags S) := by
  refine ⟨⟨?_, ?_⟩, hfresh.children⟩
  · exact List.forall_mem_append.mpr ⟨hfresh.tag.values, List.forall_mem_singleton.mpr hvalue⟩
  · intro happart
    rw [Element.addAttribute, List.map_append]
    exact (hfresh.tag.names happart).append (List.nodup_singleton _)
      (List.disjoint_singleton.mpr hnew)

theorem built_textChildren {name : String} {ts : List String}
    (hts : ∀ t ∈ ts, h.Fills S (.contentOf name) t) :
    ∀ n ∈ ts.map (textChild name), h.Builds S n := by
  intro n hn
  obtain ⟨t, ht, rfl⟩ := List.mem_map.mp hn
  exact (Element.fresh_bare name).addText (hts t ht)

/-- The nodes of the elements that were read. -/
theorem built_collect {α : Type} {read : α → Attempt Element} {as : List α}
    (hread : ∀ a ∈ as, ∀ e, (read a).run.value = some e → h.Builds S e.toNode) :
    ∀ n ∈ ((Reported.collect (fun a => (read a).run) as).value.filterMap id).map (·.toNode),
      h.Builds S n := by
  intro n hn
  obtain ⟨e, he, rfl⟩ := List.mem_map.mp hn
  obtain ⟨a, ha, he⟩ := Reported.mem_built he
  exact hread a ha e he

/-! ## Forms -/

/-- A form gives a tag that is filled from the fields of its configuration. -/
theorem Form.read_fresh {f : Form} (hf : f ∈ h.forms) (hv : v.From S origin)
    (hread : (f.read site v).run.value = some e) : e.Fresh (h.Tags S) ∧ e.name = f.element := by
  obtain ⟨hname, hchildren, hattributes⟩ := Form.mem_read hread
  refine ⟨⟨⟨?_, ?_⟩, hchildren⟩, hname⟩
  · intro x hx
    rw [hname]
    rcases hattributes x hx with hr | ⟨r, hr, s, hs, htarget, ht⟩
    · exact .inl (.rule hf hr)
    · have hcopied := Handler.edit_copied (Handler.lowers_setting hf hr hs) nofun
      rw [← htarget]
      exact .inr ⟨_, hv.fieldText ht, .setting hf hr hs, (hcopied _).symm⟩
  · intro happart
    obtain ⟨hforms, -⟩ := Bool.and_eq_true_iff.mp happart
    exact nodup_of_subperm (Form.read_targets hread)
      (of_decide_eq_true (List.all_eq_true.mp hforms f hf))

theorem Form.readTiers_built {f : Form} (hf : f ∈ h.forms) {tiers : List Tier}
    (htiers : ∀ t ∈ tiers, t.form ∈ h.forms) (hv : v.From S origin)
    (hread : (f.readTiers site tiers v).run.value = some e) : h.Builds S e.toNode := by
  induction tiers generalizing f v e origin with
  | nil => exact (Form.read_fresh hf hv hread).1.toNode
  | cons tier below ih =>
    obtain ⟨htier, hbelow⟩ := List.forall_mem_cons.mp htiers
    obtain ⟨e', he', hread⟩ := Attempt.value_bind_eq_some hread
    obtain ⟨hfresh, -⟩ := Form.read_fresh hf hv he'
    split at hread
    · cases hread
      exact hfresh.toNode
    · rename_i type entries span hfield
      have hentries := hv.field hfield
      cases Attempt.value_lift_bind_eq_some hread
      apply hfresh.append
      apply built_collect
      intro entry hentry e he
      exact ih htier hbelow (hentries.element hentry) he
    · cases Attempt.value_lift_bind_eq_some hread
      exact hfresh.toNode

theorem readHeaderCheck_built (hv : v.From S origin)
    (hread : (readHeaderCheck site v).run.value = some e) :
    Handler.Builds (.statement .headerCheck) S e.toNode := by
  obtain ⟨e', he', hread⟩ := Attempt.value_bind_eq_some hread
  have hform : headerCheckForm ∈ (Handler.statement .headerCheck).forms := List.mem_singleton_self _
  obtain ⟨hfresh, -⟩ := Form.read_fresh hform hv he'
  cases Attempt.value_lift_bind_eq_some hread
  apply hfresh.append
  apply built_textChildren
  intro t ht
  exact .inr ⟨_, Site.mem_fieldTexts hv ht, .allowedValue, rfl⟩

theorem readEntries_built (hv : v.From S origin) {field : String}
    {read : Value → Attempt Element} (hread : ∀ w e, w.From S (.field field) →
      (read w).run.value = some e → h.Builds S e.toNode) :
    ∀ n ∈ (readEntries v field read).value, h.Builds S n := by
  unfold readEntries
  cases hfield : v.field? field with
  | none => exact List.forall_mem_nil _
  | some list =>
    apply built_collect
    intro entry hentry e he
    exact hread entry e ((hv.field hfield).element hentry) he

theorem readAddressFilter_built (hv : v.From S origin)
    (hread : (readAddressFilter site v).run.value = some e) :
    Handler.Builds (.statement .addressFilter) S e.toNode := by
  obtain ⟨e', he', hread⟩ := Attempt.value_bind_eq_some hread
  have hform : addressFilterForm ∈ (Handler.statement .addressFilter).forms := by decide
  have hrange : addressRangeForm ∈ (Handler.statement .addressFilter).forms := by decide
  obtain ⟨hfresh, -⟩ := Form.read_fresh hform hv he'
  have hread := Attempt.value_lift_bind_eq_some hread
  cases Attempt.value_lift_bind_eq_some hread
  apply hfresh.append
  rw [List.forall_mem_append]
  constructor
  · apply built_textChildren
    intro t ht
    exact .inr ⟨_, Site.mem_fieldTexts hv ht, .address, rfl⟩
  · exact readEntries_built hv fun w e hw he => (Form.read_fresh hrange hw he).1.toNode

/-! ## Responses -/

theorem readExistsAction_fills (hv : v.From S origin) {t : String}
    (hread : (readExistsAction site v).run.value = some t) :
    Handler.Fills (.statement .response) S .existsAction t := by
  unfold readExistsAction at hread
  cases hfield : v.field? "ExistsAction" with
  | none =>
    rw [hfield] at hread
    cases hread
    exact .inl .override
  | some action =>
    rw [hfield] at hread
    obtain ⟨u, hu, hread⟩ := Attempt.value_bind_eq_some hread
    rw [Site.value_singleText] at hu
    cases hread
    exact .inr ⟨_, (hv.field hfield).text hu, .existsAction, rfl⟩

/-- The action of a header is an attribute beside those of its form. -/
theorem readResponseHeader_built (hv : v.From S origin)
    (hread : (readResponseHeader site v).run.value = some e) :
    Handler.Builds (.statement .response) S e.toNode := by
  obtain ⟨e', he', hread⟩ := Attempt.value_bind_eq_some hread
  have hform : responseHeaderForm ∈ (Handler.statement .response).forms := by decide
  obtain ⟨hfresh, hname⟩ := Form.read_fresh hform hv he'
  obtain ⟨action, haction, hread⟩ := Attempt.value_bind_eq_some hread
  cases Attempt.value_lift_bind_eq_some hread
  have hnew : "exists-action" ∉ e'.attributeNames := by
    intro hmem
    exact absurd ((Form.read_targets he').subset hmem) (by decide)
  have hfills : Handler.Fills (.statement .response) S (.attributeOf e'.name "exists-action")
      action := by
    rw [hname]
    exact readExistsAction_fills hv haction
  apply (hfresh.addAttribute hnew hfills).append
  apply built_textChildren
  intro t ht
  exact .inr ⟨_, Site.mem_fieldTexts hv ht, .headerValue, rfl⟩

/-- The body of a response is the one element of a form that is given a text. -/
theorem readResponseBody_built (hv : v.From S (.field "Body"))
    (hread : (readResponseBody site v).run.value = some e) :
    Handler.Builds (.statement .response) S e.toNode := by
  unfold readResponseBody at hread
  split at hread
  · rename_i t ht
    cases hread
    exact (Element.fresh_bare _).addText (.inr ⟨_, hv.text ht, .body, rfl⟩)
  · obtain ⟨e', he', hread⟩ := Attempt.value_bind_eq_some hread
    have hform : responseBodyForm ∈ (Handler.statement .response).forms := by decide
    obtain ⟨hfresh, hname⟩ := Form.read_fresh hform hv he'
    split at hread
    · cases hread
    · rename_i content hcontent
      obtain ⟨t, ht, hread⟩ := Attempt.value_bind_eq_some hread
      rw [Site.value_singleText] at ht
      cases hread
      apply hfresh.addText
      rw [hname]
      exact .inr ⟨_, (hv.field hcontent).text ht, .bodyContent, rfl⟩

theorem readPart_built {field : String} {read : Value → Attempt Element}
    (hread : ∀ w e, v.field? field = some w → (read w).run.value = some e →
      h.Builds S e.toNode) :
    ∀ n ∈ (readPart v field read).value, h.Builds S n := by
  unfold readPart
  cases hfield : v.field? field with
  | none => exact List.forall_mem_nil _
  | some w =>
    intro n hn
    obtain ⟨e, he, rfl⟩ := Option.map_eq_some_iff.mp (Option.mem_toList.mp hn)
    exact hread w e hfield he

theorem readResponse_built (hv : v.From S origin)
    (hread : (readResponse site v).run.value = some e) :
    Handler.Builds (.statement .response) S e.toNode := by
  obtain ⟨e', he', hread⟩ := Attempt.value_bind_eq_some hread
  have hform : responseForm ∈ (Handler.statement .response).forms := by decide
  have hstatus : responseStatusForm ∈ (Handler.statement .response).forms := by decide
  obtain ⟨hfresh, -⟩ := Form.read_fresh hform hv he'
  have hread := Attempt.value_lift_bind_eq_some hread
  have hread := Attempt.value_lift_bind_eq_some hread
  cases Attempt.value_lift_bind_eq_some hread
  apply hfresh.append
  rw [List.forall_mem_append, List.forall_mem_append]
  refine ⟨⟨?_, readEntries_built hv fun w e hw he => readResponseHeader_built hw he⟩, ?_⟩
  · apply readPart_built
    intro w e hw he
    exact (Form.read_fresh hstatus (hv.field hw) he).1.toNode
  · apply readPart_built
    intro w e hw he
    exact readResponseBody_built (hv.field hw) he

/-! ## Operations -/

theorem onlyText_source {t : String} (hread : (onlyText site b call).run.value = some t) :
    ⟨.argument 0, t⟩ ∈ call.sources site b := by
  obtain ⟨-, -, hread⟩ := Attempt.value_bind_eq_some hread
  cases harguments : call.arguments with
  | nil =>
    rw [harguments] at hread
    cases hread
  | cons a others =>
    rw [harguments] at hread
    refine Value.From.text (Call.from_argument ?_) (Site.value_textArgument hread)
    rw [harguments]
    rfl

theorem mem_entryValues {others : List Argument} {n : Node}
    (hn : n ∈ (entryValues site b others).value) :
    ∃ (i : Nat) (a : Argument) (t : String), others[i]? = some a ∧
      t ∈ (site.texts (extract site b a.value).value).value ∧ n = textChild "value" t := by
  obtain ⟨t, ht, rfl⟩ := List.mem_map.1 hn
  obtain ⟨ts, hts, ht⟩ := List.mem_flatten.1 ht
  rw [Reported.value_collect] at hts
  obtain ⟨a, ha, rfl⟩ := List.mem_map.1 hts
  obtain ⟨i, hi⟩ := List.mem_iff_getElem?.1 ha
  exact ⟨i, a, t, hi, ht, rfl⟩

theorem readEntry_built {element action : String} {takesValues : Bool}
    (hread : (readEntry site b call element action takesValues).run.value = some e) :
    Handler.Builds (.statement (.entry element action takesValues)) (call.sources site b)
      e.toNode := by
  obtain ⟨-, -, hread⟩ := Attempt.value_bind_eq_some hread
  cases harguments : call.arguments with
  | nil =>
    rw [harguments] at hread
    cases hread
  | cons first others =>
    rw [harguments] at hread
    obtain ⟨t, ht, hread⟩ := Attempt.value_bind_eq_some hread
    have hargument : ∀ i a, (first :: others)[i]? = some a →
        (extract site b a.value).value.From (call.sources site b) (.argument i) := by
      intro i a ha
      rw [← harguments] at ha
      exact Call.from_argument ha
    cases Attempt.value_lift_bind_eq_some hread
    have hname := (hargument 0 first rfl).text (Site.value_textArgument ht)
    have hnew : "exists-action" ∉ ["name"] := by decide
    refine (((Element.fresh_bare element).addAttribute List.not_mem_nil ?_).addAttribute hnew
      (.inl .action)).append ?_
    · exact .inr ⟨_, hname, .entryName, rfl⟩
    intro n hn
    obtain ⟨i, a, u, ha, hu, rfl⟩ := mem_entryValues hn
    have hvalue := Site.mem_texts (hargument (i + 1) a ha) hu
    exact (Element.fresh_bare _).addText (.inr ⟨_, hvalue, .entryValue, rfl⟩)

/-- Arguments become attributes with the first of the names. -/
theorem positionalAttributes_eq_some {names : List String} {as : List Argument}
    {xs : List Attribute} (hread : (positionalAttributes site b names as).run.value = some xs) :
    ∀ (i : Nat) (x : Attribute), xs[i]? = some x → names[i]? = some x.name ∧
      ∃ a : Argument, as[i]? = some a ∧ (extract site b a.value).value.text? = some x.value := by
  induction names generalizing as xs with
  | nil =>
    cases hread
    exact nofun
  | cons name names ih =>
    cases as with
    | nil =>
      cases hread
      exact nofun
    | cons a as =>
      obtain ⟨t, ht, hread⟩ := Attempt.value_bind_eq_some hread
      obtain ⟨ys, hys, hread⟩ := Attempt.value_bind_eq_some hread
      cases hread
      intro i x hx
      cases i with
      | zero =>
        cases hx
        exact ⟨rfl, a, rfl, Site.value_textArgument ht⟩
      | succ i => exact ih hys i x hx

theorem readPositional_built {element : String} {needed : Nat} {names : List String}
    (hread : (readPositional site b call element needed names).run.value = some e) :
    Handler.Builds (.statement (.positional element needed names)) (call.sources site b)
      e.toNode := by
  obtain ⟨-, -, hread⟩ := Attempt.value_bind_eq_some hread
  obtain ⟨xs, hxs, hread⟩ := Attempt.value_bind_eq_some hread
  cases hread
  have hplaces := positionalAttributes_eq_some hxs
  refine Element.Fresh.toNode ⟨⟨?_, ?_⟩, rfl⟩
  · intro x hx
    obtain ⟨i, hi⟩ := List.mem_iff_getElem?.mp hx
    obtain ⟨hname, a, ha, hvalue⟩ := hplaces i x hi
    exact .inr ⟨_, (Call.from_argument ha).text hvalue, .positional hname, rfl⟩
  · intro happart
    have hprefix : xs.map (·.name) <+: names := by
      rw [List.prefix_iff_getElem?]
      intro i hi
      rw [List.length_map] at hi
      rw [List.getElem_map]
      exact (hplaces i _ (List.getElem?_eq_getElem hi)).1
    exact (of_decide_eq_true happart : names.Nodup).sublist hprefix.sublist

theorem Schema.read_built {schema : Schema}
    (hread : (schema.read site b call).run.value = some e) :
    Handler.Builds (.statement (.configured schema)) (call.sources site b) e.toNode := by
  obtain ⟨-, -, hread⟩ := Attempt.value_bind_eq_some hread
  cases harguments : call.arguments with
  | nil =>
    rw [harguments] at hread
    cases hread
    exact (Element.fresh_bare _).toNode
  | cons a others =>
    rw [harguments] at hread
    obtain ⟨v, hv, hread⟩ := Attempt.value_bind_eq_some hread
    have hfrom : v.From (call.sources site b) (.argument 0) := by
      rw [Site.value_configuration hv]
      apply Call.from_argument
      rw [harguments]
      rfl
    refine Form.readTiers_built ?_ ?_ hfrom hread
    · exact List.mem_cons_self ..
    · intro tier htier
      exact List.mem_cons_of_mem _ (List.mem_map_of_mem htier)

theorem Operation.run_built {o : Operation} {node : Node}
    (hrun : (o.run site b call).run.value = some node) :
    Handler.Builds (.statement o) (call.sources site b) node := by
  cases o with
  | bare element =>
    obtain ⟨-, -, hrun⟩ := Attempt.value_bind_eq_some hrun
    cases hrun
    exact (Element.fresh_bare element).toNode
  | entry element action takesValues =>
    obtain ⟨e, he, rfl⟩ := Attempt.value_map_eq_some hrun
    exact readEntry_built he
  | text element =>
    obtain ⟨t, ht, hrun⟩ := Attempt.value_bind_eq_some hrun
    cases hrun
    exact (Element.fresh_bare element).addText (.inr ⟨_, onlyText_source ht, .text, rfl⟩)
  | positional element needed names =>
    obtain ⟨e, he, rfl⟩ := Attempt.value_map_eq_some hrun
    exact readPositional_built he
  | markup =>
    obtain ⟨t, ht, hrun⟩ := Attempt.value_bind_eq_some hrun
    cases hrun
    exact .raw (.inr ⟨_, onlyText_source ht, .markup, rfl⟩)
  | configured schema =>
    obtain ⟨e, he, rfl⟩ := Attempt.value_map_eq_some hrun
    exact Schema.read_built he
  | headerCheck =>
    obtain ⟨v, hv, hrun⟩ := Attempt.value_bind_eq_some hrun
    obtain ⟨e, he, rfl⟩ := Attempt.value_map_eq_some hrun
    exact readHeaderCheck_built (Site.from_onlyConfiguration hv) he
  | addressFilter =>
    obtain ⟨v, hv, hrun⟩ := Attempt.value_bind_eq_some hrun
    obtain ⟨e, he, rfl⟩ := Attempt.value_map_eq_some hrun
    exact readAddressFilter_built (Site.from_onlyConfiguration hv) he
  | response =>
    obtain ⟨v, hv, hrun⟩ := Attempt.value_bind_eq_some hrun
    obtain ⟨e, he, rfl⟩ := Attempt.value_map_eq_some hrun
    exact readResponse_built (Site.from_onlyConfiguration hv) he

/-- A bound operation reads one form. -/
theorem BoundOperation.run_reads {o : BoundOperation} {name : String}
    (hrun : (o.run site b call name).run.value = some e) :
    ∃ f v, f ∈ (Handler.declaration o name).forms ∧
      v.From (call.sources site b) (.argument 0) ∧ (f.read site v).run.value = some e := by
  cases o with
  | managedIdentity =>
    obtain ⟨v, hv, hrun⟩ := Attempt.value_bind_eq_some hrun
    obtain ⟨-, -, hrun⟩ := Attempt.value_bind_eq_some hrun
    exact ⟨_, v, List.mem_singleton_self _, Site.from_onlyConfiguration hv, hrun⟩
  | cachedValue =>
    obtain ⟨v, hv, hrun⟩ := Attempt.value_bind_eq_some hrun
    exact ⟨_, v, List.mem_singleton_self _, Site.from_onlyConfiguration hv, hrun⟩

theorem Handler.run_built {node : Node} (hrun : (h.run site b call).run.value = some node) :
    h.Builds (call.sources site b) node := by
  cases h with
  | statement o => exact Operation.run_built hrun
  | declaration o name =>
    obtain ⟨e, he, rfl⟩ := Attempt.value_map_eq_some hrun
    obtain ⟨f, v, hf, hv, hread⟩ := BoundOperation.run_reads he
    exact (Form.read_fresh hf hv hread).1.toNode

end Handling

/-! ## Documents -/

theorem Operation.namesApart_of_named {method : String} {o : Operation}
    (h : Operation.named? method = some o) : (Handler.statement o).namesApart = true :=
  Operation.of_named (p := fun o => (Handler.statement o).namesApart) (by decide +kernel) h

/-- The variable of a bound operation has an attribute of its own, in place of the one that
    the configuration could give. -/
theorem BoundOperation.namesApart (o : BoundOperation) (name : String) :
    (Handler.declaration o name).namesApart = true := by
  cases o <;> rfl

theorem names_nodup_of_length {attributes : List Attribute} (h : attributes.length ≤ 1) :
    (attributes.map (·.name)).Nodup := by
  match attributes with
  | [] => exact List.nodup_nil
  | [x] => exact List.pairwise_singleton _ x.name

/-- All nodes of a document are built in this way, and attributes of a tag have different
    names. -/
theorem Node.built_invariant : NodeInvariant
    (Node.Built (fun _ attributes => (attributes.map (·.name)).Nodup) fun _ _ => True) where
  operation hnamed h := (Operation.run_built h).imp
    (fun htags => htags.names (Operation.namesApart_of_named hnamed)) fun _ => trivial
  bound {site b call name o e} h := by
    have hrun : ((Handler.declaration o name).run site b call).run.value = some e.toNode := by
      rw [Handler.run, Attempt.value_map, h]
      rfl
    exact (Handler.run_built hrun).imp (fun htags => htags.names (o.namesApart name))
      fun _ => trivial
  around _ _ _ hlength hns := .nodes (names_nodup_of_length hlength) hns

end GatewayPolicy
