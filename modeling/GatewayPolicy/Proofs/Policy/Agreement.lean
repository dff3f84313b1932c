import GatewayPolicy.Policy.Argument
import GatewayPolicy.Proofs.Policy.Attempt
import GatewayPolicy.Proofs.Reading.Tree
import GatewayPolicy.Text.LowerCase

/-! # Results that agree

  Operations see values, and values of aligned expressions are equal but for the
  places they remember. So aligned code is compiled to the same document, and
  what is reported corresponds report by report. This module says what it means
  that results agree.

  - A `Comparison` says which diagnostics correspond, and what is claimed of the
    texts that code stands for and of those that reach the document.
  - `Reported.Agree` and `Attempt.Agree` compare results.
  - `Value.Aligned` compares values, which are equal but for their places.
  - `Site.Aligned` collects what is asked of the surroundings of the code.
-/

namespace GatewayPolicy

/-! ## Comparisons -/

/-- What is compared of two compilations. -/
structure Comparison where
  /-- Which diagnostics correspond. -/
  diagnostic : Diagnostic → Diagnostic → Prop
  /-- What is claimed of the texts that code stands for. -/
  text : String → Prop
  /-- What is claimed of the texts in a document. -/
  written : String → Prop
  plain : ∀ {t : String}, isInline t = false → text t
  copied : ∀ {t : String}, text t → written t
  lowerCase : ∀ {t : String}, text t → written (Text.lowerCase t)

/-- Compares diagnostics, and claims nothing of texts. -/
def Comparison.ofDiagnostics (R : Diagnostic → Diagnostic → Prop) : Comparison where
  diagnostic := R
  text := fun _ => True
  written := fun _ => True
  plain := fun _ => trivial
  copied := fun _ => trivial
  lowerCase := fun _ => trivial

variable {C : Comparison}

/-- Results that agree, with corresponding diagnostics. -/
structure Reported.Agree {α : Type} (C : Comparison) (R : α → α → Prop) (x y : Reported α) :
    Prop where
  value : R x.value y.value
  diagnostics : List.Forall₂ C.diagnostic x.diagnostics y.diagnostics

/-- Attempts that agree: both are given up or neither is. -/
def Attempt.Agree {α : Type} (C : Comparison) (R : α → α → Prop) (x y : Attempt α) : Prop :=
  Reported.Agree C (Option.Rel R) x.run y.run

/-- Equal results of which something is claimed. -/
def Same {α : Type} (P : α → Prop) (v w : α) : Prop := v = w ∧ P v

/-- Equal lists of which something is claimed for each member. -/
def SameAll {α : Type} (P : α → Prop) (v w : List α) : Prop := v = w ∧ ∀ i ∈ v, P i

section Results

variable {α β : Type} {R : α → α → Prop} {Q : β → β → Prop}

theorem Reported.agree_pure {v w : α} (h : R v w) :
    Reported.Agree C R (pure v) (pure w) :=
  ⟨h, .nil⟩

theorem Reported.Agree.bind {x y : Reported α} {f g : α → Reported β}
    (hx : Reported.Agree C R x y) (hf : ∀ v w, R v w → Reported.Agree C Q (f v) (g w)) :
    Reported.Agree C Q (x >>= f) (y >>= g) := by
  have h := hf _ _ hx.value
  exact ⟨h.value, List.rel_append hx.diagnostics h.diagnostics⟩

theorem Reported.agree_collect {f g : α → Reported β} {vs ws : List α}
    (h : List.Forall₂ R vs ws) (hf : ∀ v w, R v w → Reported.Agree C Q (f v) (g w)) :
    Reported.Agree C (List.Forall₂ Q) (Reported.collect f vs) (Reported.collect g ws) := by
  induction h with
  | nil => exact Reported.agree_pure .nil
  | cons head _ ih =>
    refine (hf _ _ head).bind fun b c hbc => ?_
    exact ih.bind fun bs cs hbs => Reported.agree_pure (.cons hbc hbs)

/-- What is left of some results when those that are missing are left out. -/
theorem SameAll.filterMap {P : α → Prop} {xs ys : List (Option α)}
    (h : List.Forall₂ (Option.Rel (Same P)) xs ys) :
    SameAll P (xs.filterMap id) (ys.filterMap id) := by
  induction h with
  | nil => exact ⟨rfl, List.forall_mem_nil _⟩
  | cons head _ ih =>
    cases head with
    | none => exact ih
    | some h =>
      obtain ⟨rfl, hP⟩ := h
      exact ⟨congrArg (_ :: ·) ih.1, List.forall_mem_cons.2 ⟨hP, ih.2⟩⟩

namespace Attempt

theorem agree_pure {v w : α} (h : R v w) : Agree C R (pure v) (pure w) := ⟨.some h, .nil⟩

theorem agree_lift {x y : Reported α} (h : Reported.Agree C R x y) :
    Agree C R (liftM x) (liftM y) := by
  refine ⟨.some h.value, ?_⟩
  rw [diagnostics_lift, diagnostics_lift]
  exact h.diagnostics

theorem Agree.bind {x y : Attempt α} {f g : α → Attempt β} (hx : Agree C R x y)
    (hf : ∀ v w, R v w → Agree C Q (f v) (g w)) : Agree C Q (x >>= f) (y >>= g) := by
  have hvalue := hx.value
  unfold Agree
  -- one of them cannot be given up alone
  cases hv : x.run.value with
  | none =>
    cases hw : y.run.value with
    | none =>
      rw [run_bind_none f hv, run_bind_none g hw]
      exact ⟨.none, hx.diagnostics⟩
    | some w => rw [hv, hw] at hvalue; cases hvalue
  | some v =>
    cases hw : y.run.value with
    | none => rw [hv, hw] at hvalue; cases hvalue
    | some w =>
      rw [hv, hw] at hvalue
      cases hvalue with
      | some h =>
        have hfg := hf v w h
        rw [run_bind_some f hv, run_bind_some g hw]
        exact ⟨hfg.value, List.rel_append hx.diagnostics hfg.diagnostics⟩

/-- What follows equal results is given the same result on both sides. -/
theorem Agree.bind_same {P : α → Prop} {x y : Attempt α} {f g : α → Attempt β}
    (hx : Agree C (Same P) x y) (hf : ∀ v, P v → Agree C Q (f v) (g v)) :
    Agree C Q (x >>= f) (y >>= g) := by
  refine hx.bind fun v w h => ?_
  obtain ⟨rfl, hP⟩ := h
  exact hf v hP

theorem Agree.map {x y : Attempt α} {f g : α → β} (hx : Agree C R x y)
    (hf : ∀ v w, R v w → Q (f v) (g w)) : Agree C Q (f <$> x) (g <$> y) := by
  rw [map_eq_pure_bind, map_eq_pure_bind]
  exact hx.bind fun v w h => agree_pure (hf v w h)

theorem Agree.both {P : α → Prop} {x y x' y' : Attempt (List α)}
    (hx : Agree C (SameAll P) x x') (hy : Agree C (SameAll P) y y') :
    Agree C (SameAll P) (Attempt.both x y) (Attempt.both x' y') := by
  refine ⟨?_, ?_⟩
  · rw [value_both, value_both]
    have hvalue := hx.value
    have hvalue' := hy.value
    revert hvalue hvalue'
    generalize x.run.value = v, x'.run.value = w, y.run.value = v', y'.run.value = w'
    rintro (⟨rfl, h⟩ | _)
    · rintro (⟨rfl, h'⟩ | _)
      · refine .some ⟨rfl, fun i hi => ?_⟩
        exact (List.mem_append.1 hi).elim (h i) (h' i)
      · exact .none
    · exact fun _ => .none
  · rw [diagnostics_both, diagnostics_both]
    exact List.rel_append hx.diagnostics hy.diagnostics

theorem agree_all {P : α → Prop} {xs ys : List (Attempt (List α))}
    (h : List.Forall₂ (Agree C (SameAll P)) xs ys) :
    Agree C (SameAll P) (Attempt.all xs) (Attempt.all ys) := by
  induction h with
  | nil => exact agree_pure ⟨rfl, List.forall_mem_nil _⟩
  | cons head _ ih => exact head.both ih

end Attempt

end Results

/-! ## Values -/

mutual

/-- Values that are equal but for their places. -/
inductive Value.Aligned (C : Comparison) (a : Alignment) : Value → Value → Prop where
  | single {t : String} {s s' : Span} (text : C.text t) (span : a.span s s') :
      Value.Aligned C a (.single t s) (.single t s')
  | named (type : Option String) {fs fs' : List (String × Value)} {s s' : Span}
      (fields : List.Forall₂ (Field.Aligned C a) fs fs') (span : a.span s s') :
      Value.Aligned C a (.named type fs s) (.named type fs' s')
  | positional (type : Option String) {vs vs' : List Value} {s s' : Span}
      (elements : List.Forall₂ (Value.Aligned C a) vs vs') (span : a.span s s') :
      Value.Aligned C a (.positional type vs s) (.positional type vs' s')

/-- Fields of one name whose values are aligned. -/
inductive Field.Aligned (C : Comparison) (a : Alignment) : String × Value → String × Value → Prop
    where
  | mk (name : String) {v v' : Value} (value : Value.Aligned C a v v') :
      Field.Aligned C a (name, v) (name, v')

end

namespace Value.Aligned

variable {a : Alignment} {v v' : Value}

theorem span_aligned (h : v.Aligned C a v') : a.span v.span v'.span := by
  cases h <;> assumption

theorem simpleType_eq (h : v.Aligned C a v') : v.simpleType? = v'.simpleType? := by
  cases h <;> rfl

theorem text_agree (h : v.Aligned C a v') : Option.Rel (Same C.text) v.text? v'.text? := by
  cases h with
  | single text _ => exact .some ⟨rfl, text⟩
  | named _ _ _ => exact .none
  | positional _ _ _ => exact .none

theorem elements_agree (h : v.Aligned C a v') :
    List.Forall₂ (Value.Aligned C a) v.elements v'.elements := by
  cases h with
  | single _ _ => exact .nil
  | named _ _ _ => exact .nil
  | positional _ elements _ => exact elements

theorem fields_agree (h : v.Aligned C a v') :
    List.Forall₂ (Field.Aligned C a) v.fields v'.fields := by
  cases h with
  | single _ _ => exact .nil
  | named _ fields _ => exact fields
  | positional _ _ _ => exact .nil

/-- The first field of a name is aligned with the first field of that name. -/
theorem find_agree {fs fs' : List (String × Value)} (h : List.Forall₂ (Field.Aligned C a) fs fs')
    (name : String) :
    Option.Rel (Value.Aligned C a) ((fs.find? (·.1 == name)).map (·.2))
      ((fs'.find? (·.1 == name)).map (·.2)) := by
  induction h with
  | nil => exact .none
  | cons head _ ih =>
    cases head with
    | mk n value =>
      rw [List.find?_cons, List.find?_cons]
      cases n == name with
      | true => exact .some value
      | false => exact ih

theorem field_agree (h : v.Aligned C a v') (name : String) :
    Option.Rel (Value.Aligned C a) (v.field? name) (v'.field? name) :=
  find_agree h.fields_agree name

theorem findIdx_eq {fs fs' : List (String × Value)} (h : List.Forall₂ (Field.Aligned C a) fs fs')
    (name : String) : fs.findIdx? (·.1 == name) = fs'.findIdx? (·.1 == name) := by
  induction h with
  | nil => rfl
  | cons head _ ih =>
    cases head with
    | mk n value => rw [List.findIdx?_cons, List.findIdx?_cons, ih]

theorem fieldIndex_eq (h : v.Aligned C a v') (name : String) :
    v.fieldIndex? name = v'.fieldIndex? name :=
  findIdx_eq h.fields_agree name

end Value.Aligned

/-! ## Sites -/

/-- Surroundings that mean the same for aligned code. -/
structure Site.Aligned (C : Comparison) (a : Alignment) (site site' : Site) : Prop where
  receiver : site.receiver = site'.receiver
  constant : ∀ {e e' : Expr}, e.Aligned a e' →
    site.model.evaluate site.className e = site'.model.evaluate site'.className e'
  code : ∀ {e e' : Expr}, e.Aligned a e' → ∀ count : Nat,
    (site.model.resolve site.className e count).bind Helper.code? =
      (site'.model.resolve site'.className e' count).bind Helper.code?
  slice : ∀ {t t' : Token}, a.token t t' → site.slice t.span = site'.slice t'.span
  named : ∀ {name : String}, a.Named name → isInline name = false
  numeral : ∀ {value : String}, a.Numeral value → isInline value = false
  report : ∀ (p : Problem) {s s' : Span}, a.span s s' →
    C.diagnostic (site.diagnostic p s) (site'.diagnostic p s')
  noOperation : ∀ {r r' s s' : Span}, a.span r r' → a.span s s' →
    C.diagnostic (site.diagnostic (.noOperation (site.slice r)) s)
      (site'.diagnostic (.noOperation (site'.slice r')) s')
  unresolved : ∀ {r r' s s' : Span}, a.span r r' → a.span s s' →
    C.diagnostic (site.diagnostic (.unresolvedCode (site.slice r)) s)
      (site'.diagnostic (.unresolvedCode (site'.slice r')) s')

namespace Site.Aligned

variable {a : Alignment} {site site' : Site}

theorem agree_report (hs : site.Aligned C a site') (p : Problem) {s s' : Span} (h : a.span s s') :
    Reported.Agree C Eq (site.report p s) (site'.report p s') :=
  ⟨rfl, .cons (hs.report p h) .nil⟩

theorem agree_reject (hs : site.Aligned C a site') {α : Type} {R : α → α → Prop} (p : Problem)
    {s s' : Span} (h : a.span s s') :
    Attempt.Agree C R (site.reject p s) (site'.reject p s') :=
  ⟨.none, .cons (hs.report p h) .nil⟩

end Site.Aligned

end GatewayPolicy
