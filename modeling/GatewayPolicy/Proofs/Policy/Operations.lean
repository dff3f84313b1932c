import GatewayPolicy.Proofs.Policy.Forms

/-! # Operations on aligned values agree

  Every operation gives the same node for aligned calls, or is given up for both,
  with corresponding diagnostics. All values in the node are texts of the
  arguments, texts in lower case, or words that the operation itself adds.

  `Operation.run_agree` and `BoundOperation.run_agree` are the results.
-/

namespace GatewayPolicy

variable {C : Comparison} {a : Alignment} {site site' : Site}

/-! ## Arguments in order -/

section Running

variable {c c' : Call}

theorem SameAll.flatten {α : Type} {P : α → Prop} {xs ys : List (List α)}
    (h : List.Forall₂ (SameAll P) xs ys) : SameAll P xs.flatten ys.flatten := by
  induction h with
  | nil => exact ⟨rfl, List.forall_mem_nil _⟩
  | cons head _ ih =>
    obtain ⟨rfl, hP⟩ := head
    refine ⟨congrArg (_ ++ ·) ih.1, fun i hi => ?_⟩
    exact (List.mem_append.1 hi).elim (hP i) (ih.2 i)

theorem entryValues_agree (hs : site.Aligned C a site') (b : Bindings) {xs xs' : List Argument}
    (h : List.Forall₂ (Argument.Aligned a) xs xs') (hd : ∀ x ∈ xs, x.value.Supplies C) :
    Reported.Agree C (SameAll (Node.Holds C.written)) (entryValues site b xs)
      (entryValues site' b xs') := by
  have hargument : ∀ x x' : Argument, x.value.Supplies C ∧ x.Aligned a x' → Reported.Agree C
      (SameAll C.text) (extract site b x.value >>= site.texts)
      (extract site' b x'.value >>= site'.texts) := by
    rintro x x' ⟨hsupplies, hx⟩
    cases hx with
    | mk name value span =>
      exact (extract_agree hs b value hsupplies).bind fun v v' hv => hs.texts_agree hv
  have harguments := (List.forall₂_and_left _ _).2 ⟨hd, h⟩
  refine (Reported.agree_collect harguments hargument).bind fun ts ts' hts => ?_
  obtain ⟨heq, hts⟩ := SameAll.flatten hts
  rw [← heq]
  exact Reported.agree_pure ⟨rfl, textChildren_holds _ hts⟩

theorem readEntry_agree (hs : site.Aligned C a site') (b : Bindings) (hc : c.Aligned C a c')
    (element : String) {action : String} (haction : C.written action) (takesValues : Bool) :
    Attempt.Agree C (Same (Element.Holds C.written)) (readEntry site b c element action takesValues)
      (readEntry site' b c' element action takesValues) := by
  refine (hs.checkCount_agree hc _).bind fun _ _ _ => ?_
  rcases hc.arguments_cases with
    ⟨hnil, hnil'⟩ | ⟨x, x', xs, xs', hcons, hcons', ⟨hx, hsx⟩, hxs, hsxs⟩
  · rw [hnil, hnil']
    exact ⟨.none, .nil⟩
  · rw [hcons, hcons']
    refine (hs.textArgument_agree b hx hsx).bind_same fun t ht => ?_
    refine (Attempt.agree_lift (entryValues_agree hs b hxs hsxs)).bind_same fun ns hns => ?_
    have hbare : ({ name := element } : Element).Holds C.written := Element.holds_bare element
    exact Attempt.agree_pure
      ⟨rfl, ((hbare.addAttribute _ (C.copied ht)).addAttribute _ haction).append hns⟩

theorem onlyText_agree (hs : site.Aligned C a site') (b : Bindings) (hc : c.Aligned C a c') :
    Attempt.Agree C (Same C.text) (onlyText site b c) (onlyText site' b c') := by
  refine (hs.checkCount_agree hc _).bind fun _ _ _ => ?_
  rcases hc.arguments_cases with ⟨hnil, hnil'⟩ | ⟨x, x', xs, xs', hcons, hcons', ⟨hx, hsx⟩, -⟩
  · rw [hnil, hnil']
    exact ⟨.none, .nil⟩
  · rw [hcons, hcons']
    exact hs.textArgument_agree b hx hsx

theorem positionalAttributes_agree (hs : site.Aligned C a site') (b : Bindings)
    (names : List String) {xs xs' : List Argument} (h : List.Forall₂ (Argument.Aligned a) xs xs')
    (hd : ∀ x ∈ xs, x.value.Supplies C) :
    Attempt.Agree C (SameAll fun x : Attribute => C.written x.value)
      (positionalAttributes site b names xs) (positionalAttributes site' b names xs') := by
  induction names generalizing xs xs' with
  | nil => exact Attempt.agree_pure ⟨rfl, List.forall_mem_nil _⟩
  | cons name names ih =>
    cases h with
    | nil => exact Attempt.agree_pure ⟨rfl, List.forall_mem_nil _⟩
    | cons head tail =>
      obtain ⟨hhead, htail⟩ := List.forall_mem_cons.1 hd
      refine (hs.textArgument_agree b head hhead).bind_same fun t ht => ?_
      refine (ih tail htail).bind_same fun xs hxs => ?_
      exact Attempt.agree_pure ⟨rfl, List.forall_mem_cons.2 ⟨C.copied ht, hxs⟩⟩

theorem readPositional_agree (hs : site.Aligned C a site') (b : Bindings)
    (hc : c.Aligned C a c') (element : String) (needed : Nat) (names : List String) :
    Attempt.Agree C (Same (Element.Holds C.written)) (readPositional site b c element needed names)
      (readPositional site' b c' element needed names) := by
  refine (hs.checkCount_agree hc _).bind fun _ _ _ => ?_
  refine (positionalAttributes_agree hs b names hc.arguments hc.supplies).bind_same
    fun xs hxs => ?_
  exact Attempt.agree_pure ⟨rfl, hxs, List.forall_mem_nil _⟩

theorem Schema.read_agree (hs : site.Aligned C a site') (b : Bindings) (hc : c.Aligned C a c')
    {s : Schema} (hform : s.form.Holds C.written) (htiers : ∀ t ∈ s.tiers, t.form.Holds C.written) :
    Attempt.Agree C (Same (Element.Holds C.written)) (s.read site b c) (s.read site' b c') := by
  refine (hs.checkCount_agree hc _).bind fun _ _ _ => ?_
  rcases hc.arguments_cases with ⟨hnil, hnil'⟩ | ⟨x, x', xs, xs', hcons, hcons', ⟨hx, hsx⟩, -⟩
  · -- an operation that may go without a configuration adds an empty element
    rw [hnil, hnil']
    exact Attempt.agree_pure ⟨rfl, Element.holds_bare _⟩
  · rw [hcons, hcons']
    refine (hs.configuration_agree b hc s.type hx hsx).bind fun v v' hv => ?_
    exact s.form.readTiers_agree hs hform htiers hv

/-- What an operation adds on its own is never inline code. -/
def Operation.addsPlain : Operation → Bool
  | .entry _ action _ => !isInline action
  | .configured s => s.form.onlyReads && s.tiers.all (·.form.onlyReads)
  | .bare _ | .text _ | .positional .. | .markup | .headerCheck | .addressFilter | .response => true

/-- What holds of all operations of the table holds of every operation that is called. -/
theorem Operation.of_named {p : Operation → Bool} (hall : Operation.table.all (p ·.2) = true)
    {method : String} {o : Operation} (h : Operation.named? method = some o) : p o = true := by
  obtain ⟨before, after, htable, -⟩ := List.lookup_eq_some_iff.1 h
  have hmem : (method, o) ∈ Operation.table := by
    rw [htable]
    exact List.mem_append_right _ (List.mem_cons_self ..)
  exact List.all_eq_true.1 hall _ hmem

theorem Operation.addsPlain_of_named {method : String} {o : Operation}
    (h : Operation.named? method = some o) : o.addsPlain = true :=
  Operation.of_named (by decide +kernel) h

/-- An element that agrees is a node that agrees. -/
theorem Attempt.Agree.toNode {x y : Attempt Element}
    (h : Attempt.Agree C (Same (Element.Holds C.written)) x y) :
    Attempt.Agree C (Same (Node.Holds C.written)) (Element.toNode <$> x) (Element.toNode <$> y) :=
  h.map fun _ _ he => ⟨congrArg _ he.1, he.2.toNode⟩

/-- Aligned calls of an operation add the same node. -/
theorem Operation.run_agree (hs : site.Aligned C a site') (b : Bindings) (hc : c.Aligned C a c')
    {o : Operation} (ho : o.addsPlain = true) :
    Attempt.Agree C (Same (Node.Holds C.written)) (o.run site b c) (o.run site' b c') := by
  cases o with
  | bare element =>
    refine (hs.checkCount_agree hc _).bind fun _ _ _ => ?_
    exact Attempt.agree_pure ⟨rfl, (Element.holds_bare element).toNode⟩
  | entry element action takesValues =>
    have haction : isInline action = false := by simpa [Operation.addsPlain] using ho
    exact (readEntry_agree hs b hc element (C.copied (C.plain haction)) takesValues).toNode
  | text element =>
    refine (onlyText_agree hs b hc).bind_same fun t ht => ?_
    exact Attempt.agree_pure ⟨rfl, holds_textChild element (C.copied ht)⟩
  | positional element needed names => exact (readPositional_agree hs b hc _ _ _).toNode
  | markup =>
    -- markup is copied as it stands, so nothing is claimed of it
    refine (onlyText_agree hs b hc).bind_same fun t ht => ?_
    exact Attempt.agree_pure ⟨rfl, Node.holds_raw _⟩
  | configured schema =>
    obtain ⟨hform, htiers⟩ := Bool.and_eq_true_iff.1 ho
    refine (schema.read_agree hs b hc (Form.holds_of_onlyReads hform) fun t ht => ?_).toNode
    exact Form.holds_of_onlyReads (List.all_eq_true.1 htiers t ht)
  | headerCheck =>
    refine (hs.onlyConfiguration_agree b hc _).bind fun v v' hv => ?_
    exact (readHeaderCheck_agree hs hv).toNode
  | addressFilter =>
    refine (hs.onlyConfiguration_agree b hc _).bind fun v v' hv => ?_
    exact (readAddressFilter_agree hs hv).toNode
  | response =>
    refine (hs.onlyConfiguration_agree b hc _).bind fun v v' hv => ?_
    exact (readResponse_agree hs hv).toNode

theorem checkOutputName_agree (hs : site.Aligned C a site') {v v' : Value}
    (hv : v.Aligned C a v') (name : String) :
    Attempt.Agree C Eq (checkOutputName site v name) (checkOutputName site' v' name) := by
  unfold checkOutputName
  have hfield := hv.field_agree "OutputTokenVariableName"
  revert hfield
  generalize v.field? _ = x, v'.field? _ = x'
  rintro (hx | _)
  · have htext := hs.singleText_agree (.field "OutputTokenVariableName") hx
    refine (Attempt.agree_lift htext).bind fun t t' ht => ?_
    have heq : t = t' := by
      cases ht with
      | none => rfl
      | some h => rw [h.1]
    rw [← heq]
    split
    · exact Attempt.agree_pure rfl
    · exact hs.agree_reject _ hx.span_aligned
  · exact Attempt.agree_pure rfl

/-- Aligned calls of an operation with a result add the same element, which
    writes the variable of the given name. -/
theorem BoundOperation.run_agree (hs : site.Aligned C a site') (b : Bindings)
    (hc : c.Aligned C a c') {name : String} (hname : a.Named name) (o : BoundOperation) :
    Attempt.Agree C (Same (Element.Holds C.written)) (o.run site b c name)
      (o.run site' b c' name) := by
  have htext : C.written name := C.copied (C.plain (hs.named hname))
  cases o with
  | managedIdentity =>
    refine (hs.onlyConfiguration_agree b hc _).bind fun v v' hv => ?_
    refine (checkOutputName_agree hs hv name).bind fun _ _ _ => ?_
    have hform : (boundIdentityForm name).Holds C.written := by
      simp [Form.Holds, boundIdentityForm, managedIdentityForm, Rule.Holds, htext]
    exact Form.read_agree hs hform hv
  | cachedValue =>
    refine (hs.onlyConfiguration_agree b hc _).bind fun v v' hv => ?_
    have hform : (cachedValueForm name).Holds C.written := by
      simp [Form.Holds, cachedValueForm, Rule.Holds, htext]
    exact Form.read_agree hs hform hv

end Running

end GatewayPolicy
