import GatewayPolicy.Proofs.Policy.Sources
import GatewayPolicy.Proofs.Reading.Placement

/-! # What is gone into for a value

  The value of an expression is found by going into it: through parentheses, into the
  elements of arrays and into new objects. Whatever else is met is a leaf, and a leaf is a
  text or is refused.

  - `Expr.entered` lists what is gone into next, and `Expr.entered_induction` follows it.
  - `Expr.leaves` lists the leaves that are met, in the order in which they are written.
  - `Site.leafText?` is the text of a leaf, and `Site.refusal` the problem of one without.
  - `extract_leaves` is the first result: every leaf without a text is reported once, in
    order and at its place, nothing else is, and the value has the shape of what was gone
    through.
  - `Expr.creations` lists the new objects and arrays that are met. `extract_creations` is
    the second result: each has a value with one entry for each part that is gone into, so
    everything written in it is kept unless arguments stand beside braces.
-/

namespace GatewayPolicy

/-! ## Going into expressions -/

namespace Expr

/-- Whether an expression is a new object or an array. -/
def isCreation : Expr → Bool
  | .object .. | .array .. => true
  | _ => false

/-- Whether an expression is gone into no further. -/
def isLeaf : Expr → Bool
  | .paren .. | .object .. | .array .. => false
  | _ => true

/-- The expressions that are gone into next: what stands in parentheses, the elements of an
    array, and of a new object what stands in its braces. Its arguments are gone into only
    where there are no braces. -/
def entered : Expr → List Expr
  | .paren inner _ => [inner]
  | .array _ elements _ => elements
  | .object _ arguments .absent _ => (arguments.getD []).map Argument.value
  | .object _ _ braces _ => braces.parts
  | _ => []

theorem entered_of_isLeaf {e : Expr} (h : e.isLeaf = true) : e.entered = [] := by
  cases e <;> first | rfl | cases h

theorem sizeOf_lt_of_mem_arguments {arguments : List Argument} {p : Expr}
    (h : p ∈ arguments.map Argument.value) : sizeOf p < sizeOf arguments := by
  obtain ⟨⟨name, value, span⟩, ha, rfl⟩ := List.mem_map.mp h
  have hsize := List.sizeOf_lt_of_mem ha
  simp only [Argument.mk.sizeOf_spec] at hsize
  show sizeOf value < _
  omega

theorem sizeOf_lt_of_mem_braces {braces : Initializer} {p : Expr} (h : p ∈ braces.parts) :
    sizeOf p < sizeOf braces := by
  cases braces with
  | absent => cases h
  | elements elements =>
    have hsize : sizeOf p < sizeOf elements := List.sizeOf_lt_of_mem h
    simp only [Initializer.elements.sizeOf_spec]
    omega
  | fields fields =>
    obtain ⟨⟨name, value, span⟩, hf, rfl⟩ := List.mem_map.mp h
    have hsize := List.sizeOf_lt_of_mem hf
    simp only [FieldValue.mk.sizeOf_spec] at hsize
    simp only [Initializer.fields.sizeOf_spec]
    show sizeOf value < _
    omega

/-- What is gone into is smaller. -/
theorem sizeOf_lt_of_mem_entered {e p : Expr} (h : p ∈ e.entered) : sizeOf p < sizeOf e := by
  cases e with
  | paren inner span =>
    obtain rfl := List.mem_singleton.mp h
    simp only [Expr.paren.sizeOf_spec]
    omega
  | array type elements span =>
    have hsize : sizeOf p < sizeOf elements := List.sizeOf_lt_of_mem h
    simp only [Expr.array.sizeOf_spec]
    omega
  | object type arguments braces span =>
    simp only [Expr.object.sizeOf_spec]
    cases braces with
    | absent =>
      cases arguments with
      | none => cases h
      | some arguments =>
        have hsize : sizeOf p < sizeOf arguments := sizeOf_lt_of_mem_arguments h
        simp only [Option.some.sizeOf_spec]
        omega
    | fields fields =>
      have hmem : p ∈ (Initializer.fields fields).parts := h
      have hsize := sizeOf_lt_of_mem_braces hmem
      omega
    | elements elements =>
      have hmem : p ∈ (Initializer.elements elements).parts := h
      have hsize := sizeOf_lt_of_mem_braces hmem
      omega
  | _ => cases h

/-- A property holds of every expression if it holds of one whenever it holds of all that
    is gone into. -/
theorem entered_induction {motive : Expr → Prop}
    (step : ∀ e, (∀ p ∈ e.entered, motive p) → motive e) (e : Expr) : motive e :=
  step e fun p hp =>
    have := sizeOf_lt_of_mem_entered hp
    entered_induction step p
termination_by sizeOf e

/-- The leaves that are met, in the order in which they are written. -/
def leaves (e : Expr) : List Expr :=
  if e.isLeaf then [e] else e.entered.attach.flatMap fun p => p.1.leaves
termination_by sizeOf e
decreasing_by exact sizeOf_lt_of_mem_entered p.2

theorem leaves_of_isLeaf {e : Expr} (h : e.isLeaf = true) : e.leaves = [e] := by
  rw [leaves, if_pos h]

theorem leaves_of_not_isLeaf {e : Expr} (h : e.isLeaf = false) :
    e.leaves = e.entered.flatMap leaves := by
  rw [leaves, if_neg (by simp [h])]
  simp

/-- The new objects and arrays that are met, each in front of those inside it. -/
def creations (e : Expr) : List Expr :=
  (if e.isCreation then [e] else []) ++ e.entered.attach.flatMap fun p => p.1.creations
termination_by sizeOf e
decreasing_by exact sizeOf_lt_of_mem_entered p.2

theorem creations_eq (e : Expr) :
    e.creations = (if e.isCreation then [e] else []) ++ e.entered.flatMap creations := by
  rw [creations]
  simp

end Expr

/-! ## Texts of leaves -/

/-- Whether an expression may be a constant: a name, a member access, an operator or a cast. -/
def Expr.mayBeConstant : Expr → Bool
  | .name .. | .member .. | .unary .. | .binary .. | .cast .. => true
  | _ => false

namespace Site

/-- The text that a literal stands for. A string with code in it is copied as written. -/
def literalText (site : Site) (l : Literal) : String :=
  if l.kind = .null then ""
  else if l.kind = .interpolated then inlineExpression (site.slice l.span)
  else l.value

/-- The text of an expression that is a constant. -/
def constant? (site : Site) (e : Expr) : Option String :=
  (site.model.evaluate site.className e).toOption

/-- The text of a leaf, if it has one. Every literal has one. A call has the code of the
    method that it calls, and a name that is bound has the code that reads its variable. Other
    names, member accesses, operators and casts have one if they are constants, and nothing
    else has one. -/
def leafText? (site : Site) (b : Bindings) (leaf : Expr) : Option String :=
  match leaf with
  | .literal l => some (site.literalText l)
  | .call target _ arguments _ =>
    (site.model.resolve site.className target arguments.length).bind Helper.code?
  | .name n _ => ((b.lookup? n).map variableCode).or (site.constant? leaf)
  | _ => if leaf.mayBeConstant then site.constant? leaf else none

/-- The problem of a leaf that has no text. -/
def refusal (site : Site) (leaf : Expr) : Problem :=
  match leaf with
  | .call target _ _ _ =>
    .unresolvedCode ((target.path?.map pathText).getD (site.slice target.span))
  | _ =>
    if leaf.mayBeConstant then
      match site.model.evaluate site.className leaf with
      | .error error => constantProblem leaf error
      | .ok _ => .unsupportedParameter leaf.shape
    else .unsupportedParameter leaf.shape

/-- The reports on some leaves: one for each that has no text. -/
def refusals (site : Site) (b : Bindings) (leaves : List Expr) : List Diagnostic :=
  (leaves.filter fun leaf => (site.leafText? b leaf).isNone).map fun leaf =>
    site.diagnostic (site.refusal leaf) leaf.span

theorem refusals_of_none {site : Site} {b : Bindings} {leaf : Expr}
    (h : site.leafText? b leaf = none) :
    site.refusals b [leaf] = [site.diagnostic (site.refusal leaf) leaf.span] := by
  simp [refusals, h]

theorem refusals_of_some {site : Site} {b : Bindings} {leaf : Expr} {text : String}
    (h : site.leafText? b leaf = some text) : site.refusals b [leaf] = [] := by
  simp [refusals, h]

theorem refusals_flatMap (site : Site) (b : Bindings) (leaves : Expr → List Expr)
    (es : List Expr) :
    site.refusals b (es.flatMap leaves) = es.flatMap fun e => site.refusals b (leaves e) := by
  simp only [refusals, List.filter_flatMap, List.map_flatMap]

end Site

section Extraction

variable {site : Site} {b : Bindings}

/-- What a leaf gives and reports. -/
def Site.leaf (site : Site) (b : Bindings) (leaf : Expr) : Reported Value where
  value := .single ((site.leafText? b leaf).getD "") leaf.span
  diagnostics := site.refusals b [leaf]

theorem Site.leaf_of_some {leaf : Expr} {text : String}
    (h : site.leafText? b leaf = some text) :
    site.leaf b leaf = { value := .single text leaf.span } := by
  rw [Site.leaf, Site.refusals_of_some h, h, Option.getD_some]

theorem Site.leaf_of_none {leaf : Expr} (h : site.leafText? b leaf = none) :
    site.leaf b leaf = site.refuse (site.refusal leaf) leaf.span := by
  rw [Site.leaf, Site.refusals_of_none h, h]
  rfl

theorem extractConstant_eq {e : Expr} (h : site.leafText? b e = site.constant? e)
    (hrefusal : ∀ error, site.model.evaluate site.className e = .error error →
      site.refusal e = constantProblem e error) : extractConstant site e = site.leaf b e := by
  unfold extractConstant
  cases heval : site.model.evaluate site.className e with
  | ok text =>
    rw [Site.constant?, heval] at h
    rw [Site.leaf_of_some h]
    rfl
  | error error =>
    rw [Site.constant?, heval] at h
    rw [Site.leaf_of_none h, hrefusal error heval]

theorem Site.refusal_of_constant {e : Expr} {error : SymbolError} (hmay : e.mayBeConstant = true)
    (heval : site.model.evaluate site.className e = .error error) :
    site.refusal e = constantProblem e error := by
  cases e with
  | call => cases hmay
  | _ => simp only [Site.refusal, hmay, if_true, heval]

theorem extractCall_eq (target : Expr) (types : List String) (arguments : List Argument)
    (span : Span) :
    extractCall site target arguments.length span =
      site.leaf b (.call target types arguments span) := by
  have htext : site.leafText? b (.call target types arguments span) =
      (site.model.resolve site.className target arguments.length).bind Helper.code? := rfl
  unfold extractCall
  rw [← htext]
  cases hcode : site.leafText? b (.call target types arguments span) with
  | some code =>
    rw [Site.leaf_of_some hcode]
    rfl
  | none =>
    rw [Site.leaf_of_none hcode, Site.refusal]
    cases target.path? <;> rfl

/-- A leaf gives its text, or is reported and gives the empty text. -/
theorem extract_of_isLeaf {e : Expr} (h : e.isLeaf = true) :
    extract site b e = site.leaf b e := by
  cases e with
  | paren | object | array => cases h
  | literal l =>
    have htext : site.leafText? b (.literal l) = some (site.literalText l) := rfl
    rw [Site.leaf_of_some htext, extract, Site.literalText]
    cases l.kind <;> rfl
  | call target types arguments span =>
    rw [extract]
    exact extractCall_eq target types arguments span
  | name n span =>
    rw [extract]
    cases hbound : b.lookup? n with
    | some holder =>
      have htext : site.leafText? b (.name n span) = some (variableCode holder) := by
        simp [Site.leafText?, hbound]
      rw [Site.leaf_of_some htext]
      rfl
    | none =>
      have htext : site.leafText? b (.name n span) = site.constant? (.name n span) := by
        simp [Site.leafText?, hbound]
      exact extractConstant_eq htext fun error => Site.refusal_of_constant rfl
  | member | binary | unary | cast =>
    rw [extract]
    exact extractConstant_eq rfl fun error => Site.refusal_of_constant rfl
  | _ => rfl

/-! ## Values of what is gone into -/

theorem extractAll_eq (es : List Expr) :
    extractAll site b es = Reported.collect (extract site b) es := by
  induction es with
  | nil => rfl
  | cons e es ih =>
    rw [extractAll, ih]
    rfl

theorem extractArguments_eq (as : List Argument) :
    extractArguments site b as = Reported.collect (extract site b) (as.map Argument.value) := by
  induction as with
  | nil => rfl
  | cons a as ih =>
    cases a
    rw [extractArguments, ih]
    rfl

theorem extractFields_eq (fs : List FieldValue) :
    extractFields site b fs =
      Reported.collect (fun f => Prod.mk f.name <$> extract site b f.value) fs := by
  induction fs with
  | nil => rfl
  | cons f fs ih =>
    cases f
    rw [extractFields, ih]
    simp [Reported.collect, FieldValue.name, FieldValue.value]

/-- Everything that is gone into reports by itself, in order, and nothing is added. -/
theorem diagnostics_extract {e : Expr} (h : e.isLeaf = false) :
    (extract site b e).diagnostics =
      e.entered.flatMap fun p => (extract site b p).diagnostics := by
  cases e with
  | paren inner span => simp [extract, Expr.entered]
  | array type elements span =>
    simp [extract, extractAll_eq, Reported.diagnostics_collect, Expr.entered]
  | object type arguments braces span =>
    cases braces with
    | fields fields =>
      simp [extract, extractFields_eq, Reported.diagnostics_collect, Expr.entered,
        Initializer.parts, List.flatMap_map]
    | elements elements =>
      simp [extract, extractAll_eq, Reported.diagnostics_collect, Expr.entered, Initializer.parts]
    | absent =>
      cases arguments with
      | none => simp [extract, Expr.entered]
      | some arguments =>
        cases arguments with
        | nil => simp [extract, Expr.entered]
        | cons a as =>
          rw [extract, extractArguments_eq]
          simp [Reported.diagnostics_collect, Expr.entered, List.flatMap_map]
  | _ => cases h

end Extraction

/-! ## Reports and shapes -/

/-- The value has the shape of what was gone through for it. A leaf is a text, parentheses
    leave no trace, fields in braces are fields of these names, and other entries in braces,
    elements of an array and arguments without braces are a list, all in the order in which
    they are written. -/
inductive Expr.MirroredBy (text : Expr → String) : Expr → Value → Prop where
  | leaf {e : Expr} (isLeaf : e.isLeaf = true) : MirroredBy text e (.single (text e) e.span)
  | paren {inner : Expr} {span : Span} {v : Value} (inside : MirroredBy text inner v) :
      MirroredBy text (.paren inner span) v
  | array {type : Option String} {es : List Expr} {span : Span} {vs : List Value}
      (values : List.Forall₂ (MirroredBy text) es vs) :
      MirroredBy text (.array type es span) (.positional type vs span)
  | fields {type : Option String} {as : Option (List Argument)} {fs : List FieldValue}
      {span : Span} {vs : List (String × Value)}
      (names : vs.map Prod.fst = fs.map FieldValue.name)
      (values : List.Forall₂ (MirroredBy text) (fs.map FieldValue.value) (vs.map Prod.snd)) :
      MirroredBy text (.object type as (.fields fs) span) (.named type vs span)
  | elements {type : Option String} {as : Option (List Argument)} {es : List Expr} {span : Span}
      {vs : List Value} (values : List.Forall₂ (MirroredBy text) es vs) :
      MirroredBy text (.object type as (.elements es) span) (.positional type vs span)
  | arguments {type : Option String} {as : List Argument} {span : Span} {vs : List Value}
      (given : as ≠ [])
      (values : List.Forall₂ (MirroredBy text) (as.map Argument.value) vs) :
      MirroredBy text (.object type (some as) .absent span) (.positional type vs span)
  | nothing {type : Option String} {as : Option (List Argument)} {span : Span}
      (none : as.getD [] = []) :
      MirroredBy text (.object type as .absent span) (.named type [] span)

section Shape

variable {site : Site} {b : Bindings} {text : Expr → String}

theorem forall₂_mirroredBy {es : List Expr}
    (h : ∀ p ∈ es, p.MirroredBy text (extract site b p).value) :
    List.Forall₂ (Expr.MirroredBy text) es (Reported.collect (extract site b) es).value := by
  rw [Reported.value_collect, List.forall₂_map_right_iff, List.forall₂_same]
  exact h

/-- One step into an expression keeps the shape. -/
theorem mirroredBy_step {e : Expr}
    (hleaf : e.isLeaf = true → e.MirroredBy text (extract site b e).value)
    (h : ∀ p ∈ e.entered, p.MirroredBy text (extract site b p).value) :
    e.MirroredBy text (extract site b e).value := by
  cases e with
  | paren inner span =>
    rw [extract]
    exact .paren (h inner (List.mem_singleton_self inner))
  | array type elements span =>
    rw [extract, extractAll_eq]
    exact .array (forall₂_mirroredBy h)
  | object type arguments braces span =>
    cases braces with
    | fields fields =>
      rw [extract, extractFields_eq]
      refine .fields ?_ ?_
      · simp [Reported.value_collect]
      · rw [Reported.value_collect, List.map_map, List.forall₂_map_left_iff,
          List.forall₂_map_right_iff, List.forall₂_same]
        exact fun f hf => h f.value (List.mem_map_of_mem hf)
    | elements elements =>
      rw [extract, extractAll_eq]
      exact .elements (forall₂_mirroredBy h)
    | absent =>
      match arguments with
      | none | some [] => exact .nothing rfl
      | some (a :: as) =>
        rw [extract, extractArguments_eq]
        exact .arguments (List.cons_ne_nil a as) (forall₂_mirroredBy h)
  | _ => exact hleaf rfl

end Shape

/-- Every leaf that is met and has no text is reported once, at its place, in the order in
    which the leaves are written, and nothing else is reported. The value has the shape of
    what was gone through, with the text of each leaf in its place, and the empty text in the
    place of a leaf that was reported. -/
theorem extract_leaves (site : Site) (b : Bindings) (e : Expr) :
    let v := extract site b e
    v.diagnostics = ((e.leaves.filter fun leaf => (site.leafText? b leaf).isNone).map fun leaf =>
        site.diagnostic (site.refusal leaf) leaf.span) ∧
      e.MirroredBy (fun leaf => (site.leafText? b leaf).getD "") v.value := by
  intro v
  constructor
  · show (extract site b e).diagnostics = site.refusals b e.leaves
    induction e using Expr.entered_induction with
    | step e ih =>
      cases hleaf : e.isLeaf with
      | true => rw [extract_of_isLeaf hleaf, Expr.leaves_of_isLeaf hleaf, Site.leaf]
      | false =>
        rw [diagnostics_extract hleaf, Expr.leaves_of_not_isLeaf hleaf, Site.refusals_flatMap]
        exact List.flatMap_congr ih
  · induction e using Expr.entered_induction with
    | step e ih =>
      refine mirroredBy_step (fun hleaf => ?_) ih
      rw [extract_of_isLeaf hleaf]
      exact .leaf hleaf

/-! ## What is kept of new objects and arrays -/

namespace Value

/-- The values directly inside an object or a list. -/
def entries : Value → List Value
  | .single .. => []
  | .named _ fields _ => fields.map Prod.snd
  | .positional _ elements _ => elements

/-- Whether a value is an object or a list. -/
def isComposite : Value → Bool
  | .single .. => false
  | .named .. | .positional .. => true

theorem sizeOf_lt_of_mem_entries {v w : Value} (h : w ∈ v.entries) : sizeOf w < sizeOf v := by
  cases v with
  | single text span => cases h
  | positional type elements span =>
    have hsize : sizeOf w < sizeOf elements := List.sizeOf_lt_of_mem h
    simp only [Value.positional.sizeOf_spec]
    omega
  | named type fields span =>
    obtain ⟨⟨name, value⟩, hf, rfl⟩ := List.mem_map.mp h
    have hsize := List.sizeOf_lt_of_mem hf
    simp only [Prod.mk.sizeOf_spec] at hsize
    simp only [Value.named.sizeOf_spec]
    omega

/-- The objects and lists in a value, itself included, each in front of those inside it. -/
def composites (v : Value) : List Value :=
  (if v.isComposite then [v] else []) ++ v.entries.attach.flatMap fun w => w.1.composites
termination_by sizeOf v
decreasing_by exact sizeOf_lt_of_mem_entries w.2

theorem composites_eq (v : Value) :
    v.composites = (if v.isComposite then [v] else []) ++ v.entries.flatMap composites := by
  rw [composites]
  simp

end Value

namespace Expr

/-- The arguments of a new object that stand beside braces. -/
def spare : Expr → List Expr
  | .object _ arguments (.fields _) _ => (arguments.getD []).map Argument.value
  | .object _ arguments (.elements _) _ => (arguments.getD []).map Argument.value
  | _ => []

/-- A new object with other arguments. -/
def withArguments (arguments : Option (List Argument)) : Expr → Expr
  | .object type _ braces span => .object type arguments braces span
  | e => e

/-- Of what is written in a new object or array, only arguments beside braces are not gone
    into. -/
theorem parts_eq_spare_append {e : Expr} (h : e.isCreation = true) :
    e.parts = e.spare ++ e.entered := by
  cases e with
  | array type elements span => rfl
  | object type arguments braces span =>
    cases braces with
    | absent => exact List.append_nil _
    | fields fields => rfl
    | elements elements => rfl
  | _ => cases h

theorem isCreation_of_mem_creations {e c : Expr} (h : c ∈ e.creations) : c.isCreation = true := by
  induction e using entered_induction with
  | step e ih =>
    rw [creations_eq, List.mem_append, List.mem_flatMap] at h
    rcases h with h | ⟨p, hp, h⟩
    · cases hcreation : e.isCreation with
      | false => simp [hcreation] at h
      | true =>
        rw [hcreation, if_pos rfl, List.mem_singleton] at h
        rwa [h]
    · exact ih p hp h

end Expr

section Creations

variable {site : Site} {b : Bindings}

/-- Arguments beside braces are not looked at. -/
theorem extract_withArguments {c : Expr} (h : c.spare ≠ [])
    (arguments : Option (List Argument)) :
    extract site b (c.withArguments arguments) = extract site b c := by
  cases c with
  | object type others braces span =>
    cases braces with
    | absent => exact absurd rfl h
    | fields fields => rw [Expr.withArguments, extract, extract]
    | elements elements => rw [Expr.withArguments, extract, extract]
  | _ => exact absurd rfl h

/-- The value of a new object or array has one entry for each part that is gone into. -/
theorem entries_extract {c : Expr} (h : c.isCreation = true) :
    (extract site b c).value.isComposite = true ∧
      (extract site b c).value.entries = c.entered.map fun p => (extract site b p).value := by
  cases c with
  | array type elements span =>
    rw [extract, extractAll_eq]
    exact ⟨rfl, Reported.value_collect _ _⟩
  | object type arguments braces span =>
    cases braces with
    | fields fields =>
      rw [extract, extractFields_eq]
      refine ⟨rfl, ?_⟩
      simp [Value.entries, Reported.value_collect, Expr.entered, Initializer.parts]
    | elements elements =>
      rw [extract, extractAll_eq]
      exact ⟨rfl, Reported.value_collect _ _⟩
    | absent =>
      cases arguments with
      | none => exact ⟨rfl, rfl⟩
      | some arguments =>
        cases arguments with
        | nil => exact ⟨rfl, rfl⟩
        | cons a as =>
          rw [extract, extractArguments_eq]
          exact ⟨rfl, Reported.value_collect _ _⟩
  | _ => cases h

/-- The objects and lists in a value are the values of the new objects and arrays that were
    met, in the same order. -/
theorem composites_extract (e : Expr) :
    (extract site b e).value.composites =
      e.creations.map fun c => (extract site b c).value := by
  induction e using Expr.entered_induction with
  | step e ih =>
    rw [Expr.creations_eq, List.map_append, List.map_flatMap, ← List.flatMap_congr ih]
    cases hcreation : e.isCreation with
    | true =>
      obtain ⟨hcomposite, hentries⟩ := @entries_extract site b e hcreation
      rw [Value.composites_eq, hcomposite, hentries, List.flatMap_map]
      rfl
    | false =>
      cases hleaf : e.isLeaf with
      | true =>
        rw [extract_of_isLeaf hleaf, Expr.entered_of_isLeaf hleaf, Site.leaf, Value.composites_eq]
        rfl
      | false =>
        -- only parentheses are left, and they have the value of what is in them
        cases e with
        | paren inner span =>
          rw [extract]
          simp [Expr.entered]
        | object | array => cases hcreation
        | _ => cases hleaf

end Creations

/-- Every new object or array that is met gives an object or a list, and these are all that
    the value consists of. Each has one entry, in order, for every part that is gone into:
    for every element and every entry in braces, and for every argument where there are no
    braces. So everything that is written in them is kept exactly if none of them has
    arguments beside braces. Such arguments are lost and leave no trace: with any others, or
    with none, the value and the reports are the same. -/
theorem extract_creations (site : Site) (b : Bindings) (e : Expr) :
    let value := fun p => (extract site b p).value
    (value e).composites = e.creations.map value ∧
      (∀ c ∈ e.creations, (value c).entries = c.entered.map value ∧
        c.parts = c.spare ++ c.entered ∧
        (c.spare ≠ [] → ∀ arguments,
          extract site b (c.withArguments arguments) = extract site b c)) ∧
      ((∀ c ∈ e.creations, (value c).entries = c.parts.map value) ↔
        ∀ c ∈ e.creations, c.spare = []) := by
  intro value
  have hentries : ∀ c ∈ e.creations, (value c).entries = c.entered.map value := fun c hc =>
    (entries_extract (Expr.isCreation_of_mem_creations hc)).2
  have hparts : ∀ c ∈ e.creations, c.parts = c.spare ++ c.entered := fun c hc =>
    Expr.parts_eq_spare_append (Expr.isCreation_of_mem_creations hc)
  refine ⟨composites_extract e, fun c hc => ⟨hentries c hc, hparts c hc, extract_withArguments⟩, ?_⟩
  refine forall₂_congr fun c hc => ?_
  rw [hentries c hc, hparts c hc, List.map_append]
  constructor
  · intro h
    -- the entries are too few by the arguments that are not gone into
    have hlength := congrArg List.length h
    simp only [List.length_append, List.length_map] at hlength
    exact List.length_eq_zero_iff.mp (by omega)
  · intro h
    rw [h]
    rfl

/-- The argument of `new Values("a") { "b" }` is lost, and nothing is reported. -/
example :
    let text (s : String) : Expr := .literal { kind := .string, value := s, span := default }
    let v := extract default [] (.object (some "Values") (some [.mk none (text "a") default])
      (.elements [text "b"]) default)
    v.value.entries.map Value.text? = [some "b"] ∧ v.diagnostics.length = 0 := by
  decide

end GatewayPolicy
