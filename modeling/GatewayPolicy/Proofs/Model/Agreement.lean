import GatewayPolicy.Model.Constant
import GatewayPolicy.Model.Helper
import GatewayPolicy.Proofs.Model.Constants
import GatewayPolicy.Proofs.Policy.Agreement

/-! # Models that mean the same

  - `SourceFile.Aligned` says what the texts of two files must have in common,
    apart from their tokens: what is copied from them is the same.
  - `Model.Aligned` says that two compilations have corresponding parts.
  - `Model.Matched` says less: whatever is looked up by its name corresponds. Constants
    then have the same values (`Model.evaluate_eq`), and calls of helper methods stand for
    the same code (`Model.code_eq`).
-/

namespace GatewayPolicy

/-! ## Lists that correspond -/

section Lists

variable {α β γ δ : Type} {R : α → β → Prop} {S : γ → δ → Prop} {xs : List α} {ys : List β}

theorem head?_rel (h : List.Forall₂ R xs ys) : Option.Rel R xs.head? ys.head? := by
  cases h with
  | nil => exact .none
  | cons head _ => exact .some head

theorem findSome?_rel {f : α → Option γ} {g : β → Option δ} (h : List.Forall₂ R xs ys)
    (hf : ∀ {x y}, R x y → Option.Rel S (f x) (g y)) :
    Option.Rel S (xs.findSome? f) (ys.findSome? g) := by
  rw [← List.head?_filterMap, ← List.head?_filterMap]
  exact head?_rel (List.rel_filterMap (fun _ _ hxy => hf hxy) h)

theorem filter_rel {p : α → Bool} {q : β → Bool} (h : List.Forall₂ R xs ys)
    (hp : ∀ {x y}, R x y → p x = q y) : List.Forall₂ R (xs.filter p) (ys.filter q) :=
  List.rel_filter (fun _ _ hxy => iff_of_eq (congrArg (· = true) (hp hxy))) h

theorem find?_rel {p : α → Bool} {q : β → Bool} (h : List.Forall₂ R xs ys)
    (hp : ∀ {x y}, R x y → p x = q y) : Option.Rel R (xs.find? p) (ys.find? q) := by
  rw [← List.head?_filter, ← List.head?_filter]
  exact head?_rel (filter_rel h hp)

theorem exists_rel (h : List.Forall₂ R xs ys) {x : α} (hx : x ∈ xs) : ∃ y ∈ ys, R x y := by
  induction h with
  | nil => exact absurd hx List.not_mem_nil
  | @cons x₀ y₀ xs ys head _ ih =>
    rcases List.mem_cons.mp hx with rfl | hx
    · exact ⟨y₀, List.mem_cons_self, head⟩
    · obtain ⟨y, hy, hxy⟩ := ih hx
      exact ⟨y, List.mem_cons_of_mem _ hy, hxy⟩

end Lists

/-! ## Parts -/

variable {C : Comparison} {a : Alignment}

/-- Files whose texts agree wherever they are copied or quoted. -/
structure SourceFile.Aligned (C : Comparison) (a : Alignment) (f f' : SourceFile) : Prop where
  name : f.name = f'.name
  token : ∀ {t t' : Token}, a.token t t' → f.slice t.span = f'.slice t'.span
  code : ∀ {s s' : Span}, a.span s s' → stripTrivia (f.slice s) = stripTrivia (f'.slice s')
  block : ∀ {s s' : Span}, a.Braced s s' →
    stripTrivia (withoutBraces (f.slice s)) = stripTrivia (withoutBraces (f'.slice s'))
  named : ∀ {name : String}, a.Named name → isInline name = false
  numeral : ∀ {value : String}, a.Numeral value → isInline value = false
  report : ∀ (p : Problem) {s s' : Span}, a.span s s' →
    C.diagnostic (p.locatedAt (f.location s)) (p.locatedAt (f'.location s'))
  noOperation : ∀ {r r' s s' : Span}, a.span r r' → a.span s s' →
    C.diagnostic ((Problem.noOperation (f.slice r)).locatedAt (f.location s))
      ((Problem.noOperation (f'.slice r')).locatedAt (f'.location s'))
  unresolved : ∀ {r r' s s' : Span}, a.span r r' → a.span s s' →
    C.diagnostic ((Problem.unresolvedCode (f.slice r)).locatedAt (f.location s))
      ((Problem.unresolvedCode (f'.slice r')).locatedAt (f'.location s'))

/-- Parts that correspond, each in its file. -/
def Part.Aligned (C : Comparison) (p p' : Part) : Prop :=
  ∃ a : Alignment, p.file.Aligned C a p'.file ∧ p.decl.Aligned a p'.decl

theorem Part.Aligned.name_eq {p p' : Part} (h : p.Aligned C p') : p.decl.name = p'.decl.name := by
  obtain ⟨a, -, hdecl⟩ := h
  exact hdecl.name

theorem ClassDecl.Aligned.methods {d d' : ClassDecl} (h : d.Aligned a d') :
    List.Forall₂ (MethodDecl.Aligned a) d.methods d'.methods := by
  refine List.rel_filterMap (fun x y hxy => ?_) h.members
  cases hxy with
  | field _ => exact .none
  | method h => exact .some h
  | other _ => exact .none

theorem ClassDecl.Aligned.fields {d d' : ClassDecl} (h : d.Aligned a d') :
    List.Forall₂ (FieldDecl.Aligned a) d.fields d'.fields := by
  refine List.rel_filterMap (fun x y hxy => ?_) h.members
  cases hxy with
  | field h => exact .some h
  | method _ => exact .none
  | other _ => exact .none

/-- Methods of one class that correspond, each in its file. -/
def Helper.Aligned (C : Comparison) (h h' : Helper) : Prop :=
  h.part.decl.name = h'.part.decl.name ∧
    ∃ a : Alignment, h.part.file.Aligned C a h'.part.file ∧ h.method.Aligned a h'.method

/-- Compilations of the same classes, up to places: the first field of a name corresponds
    in both, and so do the methods of a name, one after the other. Nothing is said of the
    order in which members of different names stand, nor of the parts that they stand in. -/
structure Model.Matched (C : Comparison) (m m' : Model) : Prop where
  field : ∀ className name, Option.Rel (fun f f' => ∃ a : Alignment, f.Aligned a f')
    (m.field? className name) (m'.field? className name)
  methods : ∀ className name, List.Forall₂ (Helper.Aligned C) (m.methodsNamed className name)
    (m'.methodsNamed className name)

/-- Compilations with corresponding parts. -/
def Model.Aligned (C : Comparison) (m m' : Model) : Prop :=
  List.Forall₂ (Part.Aligned C) m.parts m'.parts

namespace Model.Aligned

variable {m m' : Model}

theorem partsOf (h : m.Aligned C m') (className : String) :
    List.Forall₂ (Part.Aligned C) (m.partsOf className) (m'.partsOf className) :=
  filter_rel h fun hp => congrArg (· == className) hp.name_eq

/-- Fields that are found correspond. -/
theorem field (h : m.Aligned C m') (className name : String) :
    Option.Rel (fun f f' => ∃ a : Alignment, f.Aligned a f') (m.field? className name)
      (m'.field? className name) := by
  refine findSome?_rel (h.partsOf className) fun hp => ?_
  obtain ⟨a, -, hdecl⟩ := hp
  have hfield := find?_rel hdecl.fields fun hf => congrArg (· == name) hf.name
  revert hfield
  generalize List.find? _ _ = v, List.find? _ _ = w
  rintro (hf | _)
  · exact .some ⟨a, hf⟩
  · exact .none

theorem methods (h : m.Aligned C m') (className name : String) :
    List.Forall₂ (Helper.Aligned C) (m.methodsNamed className name)
      (m'.methodsNamed className name) := by
  refine List.rel_flatMap (h.partsOf className) fun p p' hp => ?_
  obtain ⟨a, hfile, hdecl⟩ := hp
  have hmethods := filter_rel hdecl.methods fun hd => congrArg (· == name) hd.name
  exact List.rel_map (fun _ _ hd => ⟨hdecl.name, a, hfile, hd⟩) hmethods

theorem matched (h : m.Aligned C m') : m.Matched C m' := ⟨h.field, h.methods⟩

end Model.Aligned

/-! ## Constants -/

/-- Corresponding expressions have the same value if references to words of the text do. -/
theorem evaluateWith_of_words {reference reference' : List String → Except SymbolError String}
    (hwords : ∀ path, (∀ n ∈ path, a.Word n) → reference path = reference' path) {e e' : Expr}
    (h : e.Aligned a e') : evaluateWith reference e = evaluateWith reference' e' := by
  have hpath := Expr.path_eq h
  have hpathWords : ∀ path, e.path? = some path → reference path = reference' path :=
    fun path hp => hwords path (Expr.path_words h hp)
  cases h with
  | literal h => rw [evaluateWith, evaluateWith, h.kind, h.value]
  | paren inner _ => rw [evaluateWith, evaluateWith, evaluateWith_of_words hwords inner]
  | cast _ operand _ => rw [evaluateWith, evaluateWith, evaluateWith_of_words hwords operand]
  | name _ _ => exact hpathWords _ rfl
  | member _ _ _ _ =>
    rw [evaluateWith, evaluateWith, ← hpath]
    split
    · rename_i path hp
      exact hpathWords path hp
    · rfl
  | unary op operand _ =>
    cases op with
    | negate => rw [evaluateWith, evaluateWith, evaluateWith_of_words hwords operand]
    | _ => rfl
  | binary op left right _ =>
    cases op with
    | add =>
      rw [evaluateWith, evaluateWith, evaluateWith_of_words hwords left,
        evaluateWith_of_words hwords right]
    | _ => rfl
  | _ => rfl
termination_by sizeOf e

/-- Corresponding expressions have the same value if references do. -/
theorem evaluateWith_eq (reference : List String → Except SymbolError String) {e e' : Expr}
    (h : e.Aligned a e') : evaluateWith reference e = evaluateWith reference e' :=
  evaluateWith_of_words (fun _ _ => rfl) h

namespace Model

variable {m m' : Model}

theorem constantWithin_eq (h : m.Matched C m') (depth : Nat) (visiting : List (String × String))
    (className : String) (path : List String) :
    m.constantWithin depth visiting className path =
      m'.constantWithin depth visiting className path := by
  -- references inside an initializer are looked up with one level less
  induction depth generalizing visiting className path with
  | zero => rfl
  | succ depth ih =>
    rw [constantWithin, constantWithin]
    have hfield := h.field (fieldOfPath className path).1 (fieldOfPath className path).2
    revert hfield
    generalize fieldOfPath className path = target
    dsimp only
    generalize m.field? target.1 target.2 = f, m'.field? target.1 target.2 = f'
    rintro (⟨a, hf⟩ | _)
    · dsimp only
      have hinitializer := hf.initializer
      rw [← hf.isConst]
      revert hinitializer
      generalize FieldDecl.initializer _ = i, FieldDecl.initializer _ = i'
      rintro (he | _)
      · have hreference : m.constantWithin depth ((target.1, target.2) :: visiting) target.1 =
            m'.constantWithin depth ((target.1, target.2) :: visiting) target.1 :=
          funext fun path => ih _ _ _
        dsimp only
        rw [hreference, evaluateWith_eq _ he]
      · rfl
    · rfl

/-- Corresponding expressions have the same value, or the same reason to have none. -/
theorem evaluate_eq (h : m.Matched C m') (className : String) {e e' : Expr} (he : e.Aligned a e') :
    m.evaluate className e = m'.evaluate className e' := by
  -- both are looked up to a depth that is large enough for both
  have hdepth : m.fieldCount < m.fieldCount + m'.fieldCount + 1 := by omega
  have hdepth' : m'.fieldCount < m.fieldCount + m'.fieldCount + 1 := by omega
  have hreference := funext (constantWithin_eq h (m.fieldCount + m'.fieldCount + 1) [] className)
  rw [evaluate_eq_within hdepth, evaluate_eq_within hdepth', hreference, evaluateWith_eq _ he]

end Model

/-! ## Helper methods -/

/-- Corresponding methods have the same code. -/
theorem Helper.code_eq {h h' : Helper} (hh : h.Aligned C h') : h.code? = h'.code? := by
  obtain ⟨-, a, hfile, hmethod⟩ := hh
  have hbody := hmethod.body
  unfold Helper.code?
  revert hbody
  generalize h.method.body = b, h'.method.body = b'
  rintro (hb | _)
  · cases hb with
    | block statements braces => exact congrArg (some ∘ inlineBlock) (hfile.block braces)
    | expression expr => exact congrArg (some ∘ inlineExpression) (hfile.code expr.span_aligned)
  · rfl

theorem calledClass_eq (className : String) {e e' : Expr} (h : e.Aligned a e') :
    calledClass? className e = calledClass? className e' := by
  have hreceiver := h.receiver_aligned
  unfold calledClass?
  revert hreceiver
  generalize e.receiver? = r, e'.receiver? = r'
  rintro (hr | _)
  · have hpath := Expr.path_eq hr
    cases hr with
    | @name n _ _ _ _ =>
      by_cases hn : n = "this"
      · subst hn
        rfl
      · simp [hn, Expr.path?]
    | _ => dsimp only; rw [hpath]
  · rfl

namespace Model

variable {m m' : Model}

theorem resolve_aligned (h : m.Matched C m') (className : String) {e e' : Expr}
    (he : e.Aligned a e') (count : Nat) :
    Option.Rel (Helper.Aligned C) (m.resolve className e count)
      (m'.resolve className e' count) := by
  unfold resolve
  rw [← he.methodName_eq, ← calledClass_eq className he]
  split
  · rename_i method owner _ _
    have hcandidates := h.methods owner method
    have hcount := find?_rel (p := (·.method.parameters.length == count)) hcandidates
      fun ⟨_, _, _, hd⟩ => congrArg (· == count) hd.parameters.length_eq
    have hhead := head?_rel hcandidates
    dsimp only
    revert hcount
    generalize List.find? _ _ = v, List.find? _ _ = w
    -- the first method with as many parameters, or else the first of that name
    rintro (hh | _)
    · exact .some hh
    · exact hhead
  · exact .none

/-- Corresponding calls stand for the same code, or for none. -/
theorem code_eq (h : m.Matched C m') (className : String) {e e' : Expr} (he : e.Aligned a e')
    (count : Nat) :
    (m.resolve className e count).bind Helper.code? =
      (m'.resolve className e' count).bind Helper.code? := by
  have hhelper := resolve_aligned h className he count
  revert hhelper
  generalize m.resolve className e count = v, m'.resolve className e' count = w
  rintro (hh | _)
  · exact Helper.code_eq hh
  · rfl

end Model

end GatewayPolicy
