import GatewayPolicy.Policy.Operation.Bound
import GatewayPolicy.Proofs.Policy.Extraction

/-! # Forms on aligned values agree

  Forms read the fields of a configuration and make an element of them. For
  aligned values they make the same element, or are given up for both.

  - `Node.values` lists the values of a node, and `Node.Holds` says something of
    all of them.
  - `Form.read_agree` and `Form.readTiers_agree` compare what forms read; the
    parts of a response follow.
-/

namespace GatewayPolicy

/-! ## Values of nodes -/

mutual

/-- The values in a node: attribute values and texts. Markup that is copied as it
    stands is none, and neither is the condition of a `when`, which is code. -/
def Node.values : Node → List String
  | .element name attributes children =>
    (attributes.filter fun x => !(name == "when" && x.name == "condition")).map (·.value) ++
      Node.valuesOfAll children
  | .text t => [t]
  | .raw _ => []

/-- The values in some nodes. -/
def Node.valuesOfAll : List Node → List String
  | [] => []
  | n :: ns => n.values ++ Node.valuesOfAll ns

end

/-- All values in a node are as claimed. -/
def Node.Holds (P : String → Prop) (n : Node) : Prop := ∀ v ∈ n.values, P v

/-- All attributes and children of an element are as claimed. -/
structure Element.Holds (P : String → Prop) (e : Element) : Prop where
  attributes : ∀ x ∈ e.attributes, P x.value
  children : ∀ n ∈ e.children, n.Holds P

section Holds

variable {P : String → Prop}

theorem Node.mem_valuesOfAll {ns : List Node} {v : String} :
    v ∈ Node.valuesOfAll ns ↔ ∃ n ∈ ns, v ∈ n.values := by
  induction ns with
  | nil => simp [Node.valuesOfAll]
  | cons n ns ih => simp [Node.valuesOfAll, ih]

/-- An element as a node; the condition of a `when` need not be as claimed. -/
theorem Node.holds_element {name : String} {attributes : List Attribute} {ns : List Node}
    (hattributes : ∀ x ∈ attributes, name = "when" ∧ x.name = "condition" ∨ P x.value)
    (hns : ∀ n ∈ ns, n.Holds P) : (Node.element name attributes ns).Holds P := by
  intro v hv
  rw [Node.values, List.mem_append, List.mem_map] at hv
  rcases hv with ⟨x, hx, rfl⟩ | hv
  · rw [List.mem_filter] at hx
    rcases hattributes x hx.1 with ⟨hname, hcondition⟩ | hP
    · simp [hname, hcondition] at hx
    · exact hP
  · obtain ⟨n, hn, hv⟩ := Node.mem_valuesOfAll.1 hv
    exact hns n hn v hv

theorem Element.Holds.toNode {e : Element} (h : e.Holds P) : e.toNode.Holds P :=
  Node.holds_element (fun x hx => .inr (h.attributes x hx)) h.children

theorem Element.holds_bare (name : String) : ({ name } : Element).Holds P :=
  ⟨List.forall_mem_nil _, List.forall_mem_nil _⟩

theorem Element.Holds.addAttribute {e : Element} (h : e.Holds P) (name : String) {v : String}
    (hv : P v) : (e.addAttribute name v).Holds P := by
  refine ⟨fun x hx => ?_, h.children⟩
  rcases List.mem_append.1 hx with hx | hx
  · exact h.attributes x hx
  · rw [List.mem_singleton.1 hx]
    exact hv

theorem Element.Holds.append {e : Element} (h : e.Holds P) {ns : List Node}
    (hns : ∀ n ∈ ns, n.Holds P) : (e.append ns).Holds P :=
  ⟨h.attributes, fun n hn => (List.mem_append.1 hn).elim (h.children n) (hns n)⟩

theorem Node.holds_text {t : String} (h : P t) : (Node.text t).Holds P := by
  intro v hv
  rw [Node.values, List.mem_singleton] at hv
  rw [hv]
  exact h

theorem Node.holds_raw (markup : String) : (Node.raw markup).Holds P := by
  intro v hv
  cases hv

theorem Element.Holds.addText {e : Element} (h : e.Holds P) {t : String} (ht : P t) :
    (e.addText t).Holds P := by
  refine h.append fun n hn => ?_
  rw [List.mem_singleton.1 hn]
  exact Node.holds_text ht

theorem holds_textChild (name : String) {t : String} (h : P t) : (textChild name t).Holds P :=
  ((Element.holds_bare name).addText h).toNode

end Holds

/-! ## Arguments -/

variable {C : Comparison} {a : Alignment} {site site' : Site}

/-- Aligned calls whose arguments supply texts as claimed. -/
structure Call.Aligned (C : Comparison) (a : Alignment) (c c' : Call) : Prop where
  method : c.method = c'.method
  arguments : List.Forall₂ (Argument.Aligned a) c.arguments c'.arguments
  supplies : ∀ x ∈ c.arguments, x.value.Supplies C
  span : a.span c.span c'.span

/-- Aligned calls both have a first argument, or both have none. -/
theorem Call.Aligned.arguments_cases {c c' : Call} (h : c.Aligned C a c') :
    c.arguments = [] ∧ c'.arguments = [] ∨
      ∃ x x' xs xs', c.arguments = x :: xs ∧ c'.arguments = x' :: xs' ∧
        (x.Aligned a x' ∧ x.value.Supplies C) ∧
        List.Forall₂ (Argument.Aligned a) xs xs' ∧ ∀ y ∈ xs, y.value.Supplies C := by
  have harguments := h.arguments
  have hsupplies := h.supplies
  revert harguments hsupplies
  generalize c.arguments = ys, c'.arguments = ys'
  rintro (_ | ⟨head, tail⟩) hsupplies
  · exact .inl ⟨rfl, rfl⟩
  · obtain ⟨hhead, htail⟩ := List.forall_mem_cons.1 hsupplies
    exact .inr ⟨_, _, _, _, rfl, rfl, ⟨head, hhead⟩, tail, htail⟩

namespace Site.Aligned

variable (hs : site.Aligned C a site')
include hs

theorem singleText_agree (slot : TextSlot) {v v' : Value} (h : v.Aligned C a v') :
    Attempt.Agree C (Same C.text) (site.singleText slot v) (site'.singleText slot v') := by
  unfold Site.singleText
  have htext := h.text_agree
  revert htext
  generalize v.text? = t, v'.text? = t'
  rintro (⟨rfl, ht⟩ | _)
  · exact Attempt.agree_pure ⟨rfl, ht⟩
  · exact hs.agree_reject _ h.span_aligned

theorem textsAmong_agree {vs vs' : List Value} (h : List.Forall₂ (Value.Aligned C a) vs vs') :
    Reported.Agree C (SameAll C.text) (site.textsAmong vs) (site'.textsAmong vs') := by
  have htexts := Reported.agree_collect h fun v v' hv => hs.singleText_agree .value hv
  exact htexts.bind fun ts ts' hts => Reported.agree_pure (SameAll.filterMap hts)

theorem texts_agree {v v' : Value} (h : v.Aligned C a v') :
    Reported.Agree C (SameAll C.text) (site.texts v) (site'.texts v') := by
  unfold Site.texts
  have htext := h.text_agree
  revert htext
  generalize v.text? = t, v'.text? = t'
  rintro (⟨rfl, ht⟩ | _)
  · exact Reported.agree_pure ⟨rfl, List.forall_mem_singleton.2 ht⟩
  · exact hs.textsAmong_agree h.elements_agree

theorem fieldTexts_agree {v v' : Value} (h : v.Aligned C a v') (field : String) :
    Reported.Agree C (SameAll C.text) (site.fieldTexts v field) (site'.fieldTexts v' field) := by
  unfold Site.fieldTexts
  have hfield := h.field_agree field
  revert hfield
  generalize v.field? field = x, v'.field? field = x'
  rintro (hx | _)
  · exact hs.texts_agree hx
  · exact Reported.agree_pure ⟨rfl, List.forall_mem_nil _⟩

theorem checkCount_agree {c c' : Call} (h : c.Aligned C a c') (range : ArgumentRange) :
    Attempt.Agree C Eq (site.checkCount c range) (site'.checkCount c' range) := by
  unfold Site.checkCount
  rw [← h.arguments.length_eq, ← h.method]
  split
  · exact Attempt.agree_pure rfl
  · exact hs.agree_reject _ h.span

theorem textArgument_agree (b : Bindings) {x x' : Argument} (h : x.Aligned a x')
    (hx : x.value.Supplies C) :
    Attempt.Agree C (Same C.text) (site.textArgument b x) (site'.textArgument b x') := by
  cases h with
  | mk name value span =>
    exact (Attempt.agree_lift (extract_agree hs b value hx)).bind
      fun v v' hv => hs.singleText_agree .argument hv

theorem configuration_agree (b : Bindings) {c c' : Call} (hc : c.Aligned C a c')
    (expected : String) {x x' : Argument} (h : x.Aligned a x') (hx : x.value.Supplies C) :
    Attempt.Agree C (Value.Aligned C a) (site.configuration b c expected x)
      (site'.configuration b c' expected x') := by
  cases h with
  | mk name value span =>
    unfold Site.configuration
    rw [← hc.method]
    cases value with
    | object type arguments initializer place =>
      have hvalue := extract_agree hs b (.object type arguments initializer place) hx
      refine (Attempt.agree_lift hvalue).bind fun v v' hv => ?_
      rw [← hv.simpleType_eq]
      split
      · exact Attempt.agree_pure hv
      · split
        · exact Attempt.agree_pure hv
        · exact hs.agree_reject _ span
    | _ => exact hs.agree_reject _ span

theorem onlyConfiguration_agree (b : Bindings) {c c' : Call} (hc : c.Aligned C a c')
    (expected : String) :
    Attempt.Agree C (Value.Aligned C a) (site.onlyConfiguration b c expected)
      (site'.onlyConfiguration b c' expected) := by
  refine (hs.checkCount_agree hc _).bind fun _ _ _ => ?_
  rcases hc.arguments_cases with ⟨hnil, hnil'⟩ | ⟨x, x', xs, xs', hcons, hcons', ⟨hx, hsx⟩, -⟩
  · rw [hnil, hnil']
    exact ⟨.none, .nil⟩
  · rw [hcons, hcons']
    exact hs.configuration_agree b hc expected hx hsx

end Site.Aligned

/-! ## Forms -/

/-- The attribute that was pulled is as claimed. -/
def Pull.Holds (P : String → Prop) : Pull → Prop
  | .fromField _ x => P x.value
  | .supplied x => P x.value

/-- What a rule adds on its own is as claimed. -/
def Rule.Holds (P : String → Prop) : Rule → Prop
  | .supplied x => P x.value
  | .required _ | .optional _ | .exactlyOne _ | .atLeastOne _ => True

/-- What a form adds on its own is as claimed. -/
def Form.Holds (P : String → Prop) (f : Form) : Prop := ∀ r ∈ f.rules, r.Holds P

section Order

variable {P : String → Prop}

theorem mem_insertByIndex {p q : Nat × Attribute} {ps : List (Nat × Attribute)}
    (h : q ∈ insertByIndex p ps) : q = p ∨ q ∈ ps := by
  induction ps with
  | nil => exact .inl (List.mem_singleton.1 h)
  | cons r rs ih =>
    unfold insertByIndex at h
    split at h
    · exact List.mem_cons.1 h
    · rcases List.mem_cons.1 h with rfl | h
      · exact .inr (List.mem_cons_self ..)
      · exact (ih h).imp_right (List.mem_cons_of_mem _)

theorem fieldOrder_holds {ps : List Pull} (h : ∀ p ∈ ps, p.Holds P) :
    ∀ q ∈ fieldOrder ps, P q.2.value := by
  induction ps with
  | nil => exact List.forall_mem_nil _
  | cons p ps ih =>
    have htail := ih fun q hq => h q (List.mem_cons_of_mem _ hq)
    cases p with
    | fromField index x =>
      intro q hq
      rcases mem_insertByIndex hq with rfl | hq
      · exact h _ (List.mem_cons_self ..)
      · exact htail q hq
    | supplied x => exact htail

theorem fillPlaces_holds {ps : List Pull} (h : ∀ p ∈ ps, p.Holds P) {qs : List (Nat × Attribute)}
    (hqs : ∀ q ∈ qs, P q.2.value) : ∀ x ∈ fillPlaces ps qs, P x.value := by
  induction ps generalizing qs with
  | nil => exact List.forall_mem_nil _
  | cons p ps ih =>
    have htail := fun q hq => h q (List.mem_cons_of_mem p hq)
    cases p with
    | supplied x =>
      exact List.forall_mem_cons.2 ⟨h _ (List.mem_cons_self ..), ih htail hqs⟩
    | fromField index x =>
      cases qs with
      | nil => exact ih htail (List.forall_mem_nil _)
      | cons q qs =>
        obtain ⟨hq, hqs⟩ := List.forall_mem_cons.1 hqs
        exact List.forall_mem_cons.2 ⟨hq, ih htail hqs⟩

/-- Putting attributes in order keeps what is claimed of them. -/
theorem arrange_holds {ps : List Pull} (h : ∀ p ∈ ps, p.Holds P) : ∀ x ∈ arrange ps, P x.value :=
  fillPlaces_holds h (fieldOrder_holds h)

end Order

section Forms

variable {v v' : Value}

theorem Setting.pull_agree (hs : site.Aligned C a site') (hv : v.Aligned C a v') (s : Setting) :
    Attempt.Agree C (SameAll (Pull.Holds C.written)) (s.pull site v) (s.pull site' v') := by
  unfold Setting.pull
  rw [← hv.fieldIndex_eq]
  have hfield := hv.field_agree s.field
  revert hfield
  generalize v.field? s.field = x, v'.field? s.field = x'
  rintro (hx | _)
  · cases v.fieldIndex? s.field with
    | none => exact Attempt.agree_pure ⟨rfl, List.forall_mem_nil _⟩
    | some index =>
      refine (hs.singleText_agree _ hx).bind_same fun t ht => ?_
      exact Attempt.agree_pure ⟨rfl, List.forall_mem_singleton.2 (C.copied ht)⟩
  · exact Attempt.agree_pure ⟨rfl, List.forall_mem_nil _⟩

theorem isSome_field_eq (hv : v.Aligned C a v') (field : String) :
    (v.field? field).isSome = (v'.field? field).isSome := by
  have hfield := hv.field_agree field
  revert hfield
  generalize v.field? field = x, v'.field? field = x'
  rintro (_ | _) <;> rfl

theorem presentChoices_eq (hv : v.Aligned C a v') (choices : List Setting) :
    presentChoices v choices = presentChoices v' choices := by
  unfold presentChoices
  exact congrArg (choices.filter ·) (funext fun c => isSome_field_eq hv c.field)

theorem Rule.pull_agree (hs : site.Aligned C a site') (hv : v.Aligned C a v') (element : String)
    {r : Rule} (hr : r.Holds C.written) :
    Attempt.Agree C (SameAll (Pull.Holds C.written)) (r.pull site element v)
      (r.pull site' element v') := by
  cases r with
  | required s =>
    simp only [Rule.pull]
    rw [← isSome_field_eq hv]
    split
    · exact s.pull_agree hs hv
    · exact hs.agree_reject _ hv.span_aligned
  | optional s => exact s.pull_agree hs hv
  | exactlyOne choices =>
    simp only [Rule.pull]
    rw [← presentChoices_eq hv]
    split
    · exact hs.agree_reject _ hv.span_aligned
    · exact Setting.pull_agree hs hv _
    · exact hs.agree_reject _ hv.span_aligned
  | atLeastOne choices =>
    simp only [Rule.pull]
    rw [← presentChoices_eq hv]
    split
    · exact hs.agree_reject _ hv.span_aligned
    · refine Attempt.agree_all ?_
      rw [List.forall₂_map_left_iff, List.forall₂_map_right_iff]
      exact List.forall₂_same.2 fun s _ => s.pull_agree hs hv
  | supplied x => exact Attempt.agree_pure ⟨rfl, List.forall_mem_singleton.2 hr⟩

theorem Form.read_agree (hs : site.Aligned C a site') {f : Form} (hf : f.Holds C.written)
    (hv : v.Aligned C a v') :
    Attempt.Agree C (Same (Element.Holds C.written)) (f.read site v) (f.read site' v') := by
  have hpulls : Attempt.Agree C (SameAll (Pull.Holds C.written)) (f.pulls site v)
      (f.pulls site' v') := by
    refine Attempt.agree_all ?_
    rw [List.forall₂_map_left_iff, List.forall₂_map_right_iff]
    exact List.forall₂_same.2 fun r hr => Rule.pull_agree hs hv f.element (hf r hr)
  refine hpulls.bind_same fun ps hps => ?_
  exact Attempt.agree_pure ⟨rfl, arrange_holds hps, List.forall_mem_nil _⟩

/-- The elements that were built, as nodes. -/
theorem nodes_agree {es es' : List (Option Element)}
    (h : List.Forall₂ (Option.Rel (Same (Element.Holds C.written))) es es') :
    SameAll (Node.Holds C.written) ((es.filterMap id).map (·.toNode))
      ((es'.filterMap id).map (·.toNode)) := by
  obtain ⟨heq, hes⟩ := SameAll.filterMap h
  refine ⟨congrArg _ heq, fun n hn => ?_⟩
  obtain ⟨e, he, rfl⟩ := List.mem_map.1 hn
  exact (hes e he).toNode

theorem Form.readTiers_agree (hs : site.Aligned C a site') {f : Form} (hf : f.Holds C.written)
    {tiers : List Tier} (htiers : ∀ t ∈ tiers, t.form.Holds C.written) (hv : v.Aligned C a v') :
    Attempt.Agree C (Same (Element.Holds C.written)) (f.readTiers site tiers v)
      (f.readTiers site' tiers v') := by
  induction tiers generalizing f v v' with
  | nil => exact f.read_agree hs hf hv
  | cons tier below ih =>
    obtain ⟨htier, hbelow⟩ := List.forall_mem_cons.1 htiers
    refine (f.read_agree hs hf hv).bind_same fun e he => ?_
    have hfield := hv.field_agree tier.field
    revert hfield
    generalize v.field? tier.field = x, v'.field? tier.field = x'
    -- the entries of the tier are read with the tiers below; anything but a list is reported
    rintro (hx | _)
    · cases hx with
      | positional type elements span =>
        have hbuilt := Reported.agree_collect elements fun w w' hw => ih htier hbelow hw
        refine (Attempt.agree_lift hbuilt).bind fun es es' hes => ?_
        obtain ⟨heq, hes⟩ := nodes_agree hes
        rw [← heq]
        exact Attempt.agree_pure ⟨rfl, he.append hes⟩
      | single text span =>
        refine (Attempt.agree_lift (hs.agree_report _ span)).bind fun _ _ _ => ?_
        exact Attempt.agree_pure ⟨rfl, he⟩
      | named type fields span =>
        refine (Attempt.agree_lift (hs.agree_report _ span)).bind fun _ _ _ => ?_
        exact Attempt.agree_pure ⟨rfl, he⟩
    · exact Attempt.agree_pure ⟨rfl, he⟩

/-! ## Lists and responses -/

theorem readEntries_agree (hv : v.Aligned C a v') (field : String)
    {f g : Value → Attempt Element} (hf : ∀ w w', w.Aligned C a w' →
      Attempt.Agree C (Same (Element.Holds C.written)) (f w) (g w')) :
    Reported.Agree C (SameAll (Node.Holds C.written)) (readEntries v field f)
      (readEntries v' field g) := by
  unfold readEntries
  have hfield := hv.field_agree field
  revert hfield
  generalize v.field? field = x, v'.field? field = x'
  rintro (hx | _)
  · have hbuilt := Reported.agree_collect hx.elements_agree hf
    exact hbuilt.bind fun es es' hes => Reported.agree_pure (nodes_agree hes)
  · exact Reported.agree_pure ⟨rfl, List.forall_mem_nil _⟩

/-- Texts as children of their own. -/
theorem textChildren_holds (name : String) {ts : List String} (h : ∀ t ∈ ts, C.text t) :
    ∀ n ∈ ts.map (textChild name), n.Holds C.written := by
  intro n hn
  obtain ⟨t, ht, rfl⟩ := List.mem_map.1 hn
  exact holds_textChild name (C.copied (h t ht))

/-- Whether a form only reads fields, and adds nothing on its own. -/
def Form.onlyReads (f : Form) : Bool :=
  f.rules.all fun
    | .supplied _ => false
    | .required _ | .optional _ | .exactlyOne _ | .atLeastOne _ => true

theorem Form.holds_of_onlyReads {f : Form} (h : f.onlyReads = true) : f.Holds C.written := by
  intro r hr
  have hread := List.all_eq_true.1 h r hr
  cases r with
  | supplied x => cases hread
  | _ => trivial

theorem readHeaderCheck_agree (hs : site.Aligned C a site') (hv : v.Aligned C a v') :
    Attempt.Agree C (Same (Element.Holds C.written)) (readHeaderCheck site v)
      (readHeaderCheck site' v') := by
  have hform : headerCheckForm.Holds C.written := Form.holds_of_onlyReads rfl
  refine (headerCheckForm.read_agree hs hform hv).bind_same fun e he => ?_
  refine (Attempt.agree_lift (hs.fieldTexts_agree hv _)).bind_same fun ts hts => ?_
  exact Attempt.agree_pure ⟨rfl, he.append (textChildren_holds _ hts)⟩

theorem readAddressFilter_agree (hs : site.Aligned C a site') (hv : v.Aligned C a v') :
    Attempt.Agree C (Same (Element.Holds C.written)) (readAddressFilter site v)
      (readAddressFilter site' v') := by
  have hform : addressFilterForm.Holds C.written := Form.holds_of_onlyReads rfl
  have hrange : addressRangeForm.Holds C.written := Form.holds_of_onlyReads rfl
  refine (addressFilterForm.read_agree hs hform hv).bind_same fun e he => ?_
  refine (Attempt.agree_lift (hs.fieldTexts_agree hv _)).bind_same fun ts hts => ?_
  refine (Attempt.agree_lift (readEntries_agree hv _ fun w w' hw =>
    addressRangeForm.read_agree hs hrange hw)).bind_same fun ns hns => ?_
  refine Attempt.agree_pure ⟨rfl, he.append fun n hn => ?_⟩
  exact (List.mem_append.1 hn).elim (textChildren_holds _ hts n) (hns n)

theorem readExistsAction_agree (hs : site.Aligned C a site') (hv : v.Aligned C a v') :
    Attempt.Agree C (Same C.written) (readExistsAction site v) (readExistsAction site' v') := by
  unfold readExistsAction
  have hfield := hv.field_agree "ExistsAction"
  revert hfield
  generalize v.field? _ = x, v'.field? _ = x'
  rintro (hx | _)
  · refine (hs.singleText_agree _ hx).bind_same fun t ht => ?_
    exact Attempt.agree_pure ⟨rfl, C.lowerCase ht⟩
  · exact Attempt.agree_pure ⟨rfl, C.copied (C.plain (by decide))⟩

theorem readResponseHeader_agree (hs : site.Aligned C a site') (hv : v.Aligned C a v') :
    Attempt.Agree C (Same (Element.Holds C.written)) (readResponseHeader site v)
      (readResponseHeader site' v') := by
  have hform : responseHeaderForm.Holds C.written := Form.holds_of_onlyReads rfl
  refine (responseHeaderForm.read_agree hs hform hv).bind_same fun e he => ?_
  refine (readExistsAction_agree hs hv).bind_same fun t ht => ?_
  refine (Attempt.agree_lift (hs.fieldTexts_agree hv _)).bind_same fun ts hts => ?_
  exact Attempt.agree_pure ⟨rfl, (he.addAttribute _ ht).append (textChildren_holds _ hts)⟩

theorem readResponseBody_agree (hs : site.Aligned C a site') (hv : v.Aligned C a v') :
    Attempt.Agree C (Same (Element.Holds C.written)) (readResponseBody site v)
      (readResponseBody site' v') := by
  unfold readResponseBody
  have htext := hv.text_agree
  revert htext
  generalize v.text? = t, v'.text? = t'
  -- a body is given as a text or as an object with its content in it
  rintro (⟨rfl, ht⟩ | _)
  · exact Attempt.agree_pure ⟨rfl, (Element.holds_bare _).addText (C.copied ht)⟩
  · have hform : responseBodyForm.Holds C.written := Form.holds_of_onlyReads rfl
    refine (responseBodyForm.read_agree hs hform hv).bind_same fun e he => ?_
    have hfield := hv.field_agree "Content"
    revert hfield
    generalize v.field? _ = x, v'.field? _ = x'
    rintro (hx | _)
    · refine (hs.singleText_agree _ hx).bind_same fun t ht => ?_
      exact Attempt.agree_pure ⟨rfl, he.addText (C.copied ht)⟩
    · exact hs.agree_reject _ hv.span_aligned

theorem readPart_agree (hv : v.Aligned C a v') (field : String) {f g : Value → Attempt Element}
    (hf : ∀ w w', w.Aligned C a w' →
      Attempt.Agree C (Same (Element.Holds C.written)) (f w) (g w')) :
    Reported.Agree C (SameAll (Node.Holds C.written)) (readPart v field f)
      (readPart v' field g) := by
  unfold readPart
  have hfield := hv.field_agree field
  revert hfield
  generalize v.field? field = x, v'.field? field = x'
  rintro (hx | _)
  · refine Reported.Agree.bind (hf _ _ hx) fun e e' he => Reported.agree_pure ?_
    cases he with
    | none => exact ⟨rfl, List.forall_mem_nil _⟩
    | some h =>
      obtain ⟨rfl, h⟩ := h
      exact ⟨rfl, List.forall_mem_singleton.2 h.toNode⟩
  · exact Reported.agree_pure ⟨rfl, List.forall_mem_nil _⟩

theorem readResponse_agree (hs : site.Aligned C a site') (hv : v.Aligned C a v') :
    Attempt.Agree C (Same (Element.Holds C.written)) (readResponse site v)
      (readResponse site' v') := by
  have hform : responseForm.Holds C.written := Form.holds_of_onlyReads rfl
  have hstatus : responseStatusForm.Holds C.written := Form.holds_of_onlyReads rfl
  refine (responseForm.read_agree hs hform hv).bind_same fun e he => ?_
  refine (Attempt.agree_lift (readPart_agree hv _ fun w w' hw =>
    responseStatusForm.read_agree hs hstatus hw)).bind_same fun ns hns => ?_
  refine (Attempt.agree_lift (readEntries_agree hv _ fun w w' hw =>
    readResponseHeader_agree hs hw)).bind_same fun ms hms => ?_
  refine (Attempt.agree_lift (readPart_agree hv _ fun w w' hw =>
    readResponseBody_agree hs hw)).bind_same fun ks hks => ?_
  refine Attempt.agree_pure ⟨rfl, he.append fun n hn => ?_⟩
  rcases List.mem_append.1 hn with hn | hn
  · exact (List.mem_append.1 hn).elim (hns n) (hms n)
  · exact hks n hn

end Forms

end GatewayPolicy
