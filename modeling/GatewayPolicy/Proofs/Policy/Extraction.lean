import GatewayPolicy.Proofs.Policy.Agreement

/-! # Values of aligned expressions

  The value of an expression is a text, or an object or list of values. Literals
  stand for themselves, and all other texts come from code: constants, helper
  methods and interpolated strings.

  - `Expr.isData` says whether an expression is made of literals only, and
    `Expr.literals` lists them.
  - `Expr.Supplies` says that all texts that may come out of an expression are as
    claimed.
  - `extract_agree` says that the values of aligned expressions agree.
-/

namespace GatewayPolicy

variable {C : Comparison} {a : Alignment}

theorem Expr.Aligned.isReference_eq {e e' : Expr} (h : e.Aligned a e') :
    e.isReference = e'.isReference := by
  cases h <;> rfl

/-! ## Data -/

mutual

/-- Whether an expression is made of literals only, inside new objects and arrays of
    any nesting. -/
def Expr.isData : Expr → Bool
  | .literal _ => true
  | .array _ es _ => Expr.allData es
  | .object _ none i _ => i.isData
  | .object _ (some xs) i _ => Argument.allData xs && i.isData
  | _ => false

def Expr.allData : List Expr → Bool
  | [] => true
  | e :: es => e.isData && Expr.allData es

def Argument.allData : List Argument → Bool
  | [] => true
  | .mk _ e _ :: xs => e.isData && Argument.allData xs

def FieldValue.allData : List FieldValue → Bool
  | [] => true
  | .mk _ e _ :: fs => e.isData && FieldValue.allData fs

def Initializer.isData : Initializer → Bool
  | .absent => true
  | .fields fs => FieldValue.allData fs
  | .elements es => Expr.allData es

end

mutual

/-- The literals that data is made of. -/
def Expr.literals : Expr → List Literal
  | .literal l => [l]
  | .array _ es _ => Expr.allLiterals es
  | .object _ none i _ => i.literals
  | .object _ (some xs) i _ => Argument.allLiterals xs ++ i.literals
  | _ => []

def Expr.allLiterals : List Expr → List Literal
  | [] => []
  | e :: es => e.literals ++ Expr.allLiterals es

def Argument.allLiterals : List Argument → List Literal
  | [] => []
  | .mk _ e _ :: xs => e.literals ++ Argument.allLiterals xs

def FieldValue.allLiterals : List FieldValue → List Literal
  | [] => []
  | .mk _ e _ :: fs => e.literals ++ FieldValue.allLiterals fs

def Initializer.literals : Initializer → List Literal
  | .absent => []
  | .fields fs => FieldValue.allLiterals fs
  | .elements es => Expr.allLiterals es

end

/-- Data whose literals are all of one sort. -/
def Expr.IsDataOf (P : Literal → Prop) (e : Expr) : Prop :=
  e.isData = true ∧ ∀ l ∈ e.literals, P l

theorem Expr.isDataOf_of_all {P : Literal → Prop} {es : List Expr}
    (h : Expr.allData es = true) (hP : ∀ l ∈ Expr.allLiterals es, P l) :
    ∀ e ∈ es, e.IsDataOf P := by
  induction es with
  | nil => simp
  | cons e es ih =>
    rw [Expr.allData, Bool.and_eq_true] at h
    rw [Expr.allLiterals, List.forall_mem_append] at hP
    exact List.forall_mem_cons.2 ⟨⟨h.1, hP.1⟩, ih h.2 hP.2⟩

theorem Argument.isDataOf_of_all {P : Literal → Prop} {xs : List Argument}
    (h : Argument.allData xs = true) (hP : ∀ l ∈ Argument.allLiterals xs, P l) :
    ∀ x ∈ xs, x.value.IsDataOf P := by
  induction xs with
  | nil => simp
  | cons x xs ih =>
    cases x
    rw [Argument.allData, Bool.and_eq_true] at h
    rw [Argument.allLiterals, List.forall_mem_append] at hP
    exact List.forall_mem_cons.2 ⟨⟨h.1, hP.1⟩, ih h.2 hP.2⟩

theorem FieldValue.isDataOf_of_all {P : Literal → Prop} {fs : List FieldValue}
    (h : FieldValue.allData fs = true) (hP : ∀ l ∈ FieldValue.allLiterals fs, P l) :
    ∀ f ∈ fs, f.value.IsDataOf P := by
  induction fs with
  | nil => simp
  | cons f fs ih =>
    cases f
    rw [FieldValue.allData, Bool.and_eq_true] at h
    rw [FieldValue.allLiterals, List.forall_mem_append] at hP
    exact List.forall_mem_cons.2 ⟨⟨h.1, hP.1⟩, ih h.2 hP.2⟩

/-- A literal without code in it; if it is a string or a character, the text it
    stands for is as claimed. -/
def Literal.Supplies (C : Comparison) (l : Literal) : Prop :=
  l.kind ≠ .interpolated ∧ (l.kind = .string → C.text l.value)

/-- Expressions whose values are as claimed: all texts are, or the expression is
    made of literals that are. -/
def Expr.Supplies (C : Comparison) (e : Expr) : Prop :=
  (∀ t, C.text t) ∨ e.IsDataOf (Literal.Supplies C)

/-! ## Extraction -/

variable {site site' : Site}

theorem Site.Aligned.agree_refuse (hs : site.Aligned C a site') (p : Problem) {s s' : Span}
    (h : a.span s s') :
    Reported.Agree C (Value.Aligned C a) (site.refuse p s) (site'.refuse p s') :=
  (hs.agree_report p h).bind fun _ _ _ => Reported.agree_pure (.single (C.plain rfl) h)

theorem constantProblem_eq {e e' : Expr} (h : e.Aligned a e') (error : SymbolError) :
    constantProblem e error = constantProblem e' error := by
  unfold constantProblem
  rw [h.isReference_eq]

theorem extractConstant_agree (hs : site.Aligned C a site') (hC : ∀ t, C.text t) {e e' : Expr}
    (h : e.Aligned a e') :
    Reported.Agree C (Value.Aligned C a) (extractConstant site e) (extractConstant site' e') := by
  unfold extractConstant
  rw [← hs.constant h]
  split
  · exact Reported.agree_pure (.single (hC _) h.span_aligned)
  · rw [← constantProblem_eq h]
    exact hs.agree_refuse _ h.span_aligned

theorem extractCall_agree (hs : site.Aligned C a site') (hC : ∀ t, C.text t) {e e' : Expr}
    (h : e.Aligned a e') (count : Nat) {s s' : Span} (hspan : a.span s s') :
    Reported.Agree C (Value.Aligned C a) (extractCall site e count s)
      (extractCall site' e' count s') := by
  unfold extractCall
  rw [← hs.code h count, ← Expr.path_eq h]
  split
  · exact Reported.agree_pure (.single (hC _) hspan)
  · cases e.path? with
    | some path => exact hs.agree_refuse _ hspan
    | none =>
      refine ⟨.single (C.plain rfl) hspan, .cons ?_ .nil⟩
      exact hs.unresolved h.span_aligned hspan

theorem extractLiteral_agree (hs : site.Aligned C a site') (b : Bindings) {l l' : Literal}
    (hl : l.Aligned a l') (hd : (Expr.literal l).Supplies C) :
    Reported.Agree C (Value.Aligned C a) (extract site b (.literal l))
      (extract site' b (.literal l')) := by
  obtain ⟨t, t', ht, hinside, hspan, hspan'⟩ := hl.token
  have hspans : a.span l.span l'.span := by
    rw [hspan, hspan']
    exact a.span_of ht hinside
  rw [extract, extract, ← hl.kind, ← hl.value]
  cases hkind : l.kind with
  | null => exact Reported.agree_pure (.single (C.plain rfl) hspans)
  | interpolated =>
    have hslice : site.slice l.span = site'.slice l'.span := by
      rw [hspan, hspan']
      exact hs.slice ht
    rcases hd with hC | ⟨-, hliterals⟩
    · dsimp only
      rw [← hslice]
      exact Reported.agree_pure (.single (hC _) hspans)
    · exact absurd hkind (hliterals l (List.mem_singleton.2 rfl)).1
  | string =>
    refine Reported.agree_pure (.single ?_ hspans)
    rcases hd with hC | ⟨-, hliterals⟩
    · exact hC _
    · exact (hliterals l (List.mem_singleton.2 rfl)).2 hkind
  | number => exact Reported.agree_pure (.single (C.plain (hs.numeral (hl.numeral hkind))) hspans)
  | boolean =>
    refine Reported.agree_pure (.single (C.plain ?_) hspans)
    rcases hl.word hkind with hvalue | hvalue
    · rw [hvalue]
      rfl
    · rw [hvalue]
      rfl

namespace Expr.Supplies

variable {type : Option String} {as : Option (List Argument)} {s : Span}

theorem of_array {es : List Expr} (h : (Expr.array type es s).Supplies C) :
    ∀ e ∈ es, e.Supplies C := by
  intro e he
  rcases h with hC | ⟨hdata, hliterals⟩
  · exact .inl hC
  · exact .inr (Expr.isDataOf_of_all hdata hliterals e he)

/-- The braces of an object hold data. -/
theorem initializer {i : Initializer} (h : (Expr.object type as i s).Supplies C) :
    (∀ t, C.text t) ∨ i.isData = true ∧ ∀ l ∈ i.literals, l.Supplies C := by
  rcases h with hC | ⟨hdata, hliterals⟩
  · exact .inl hC
  · right
    cases as with
    | none => exact ⟨hdata, hliterals⟩
    | some xs =>
      rw [Expr.isData, Bool.and_eq_true] at hdata
      rw [Expr.literals, List.forall_mem_append] at hliterals
      exact ⟨hdata.2, hliterals.2⟩

theorem of_fields {fs : List FieldValue} (h : (Expr.object type as (.fields fs) s).Supplies C) :
    ∀ f ∈ fs, f.value.Supplies C := by
  intro f hf
  rcases h.initializer with hC | ⟨hdata, hliterals⟩
  · exact .inl hC
  · exact .inr (FieldValue.isDataOf_of_all hdata hliterals f hf)

theorem of_elements {es : List Expr} (h : (Expr.object type as (.elements es) s).Supplies C) :
    ∀ e ∈ es, e.Supplies C := by
  intro e he
  rcases h.initializer with hC | ⟨hdata, hliterals⟩
  · exact .inl hC
  · exact .inr (Expr.isDataOf_of_all hdata hliterals e he)

theorem of_arguments {xs : List Argument}
    (h : (Expr.object type (some xs) .absent s).Supplies C) : ∀ x ∈ xs, x.value.Supplies C := by
  intro x hx
  rcases h with hC | ⟨hdata, hliterals⟩
  · exact .inl hC
  · rw [Expr.isData, Bool.and_eq_true] at hdata
    rw [Expr.literals, List.forall_mem_append] at hliterals
    exact .inr (Argument.isDataOf_of_all hdata.1 hliterals.1 x hx)

/-- Whether an expression is neither a literal nor a new object or array. -/
def isCode : Expr → Bool
  | .literal _ | .object .. | .array .. => false
  | _ => true

theorem not_isCode_of_isData {e : Expr} (h : e.isData = true) : isCode e = false := by
  cases e <;> first | rfl | cases h

/-- Code may only be given where every text may reach the document. -/
theorem of_code {e : Expr} (h : e.Supplies C) (hcode : isCode e = true) : ∀ t, C.text t := by
  rcases h with hC | ⟨hdata, -⟩
  · exact hC
  · rw [not_isCode_of_isData hdata] at hcode
    cases hcode

end Expr.Supplies

mutual

/-- The values of aligned expressions agree. -/
theorem extract_agree (hs : site.Aligned C a site') (b : Bindings) {e e' : Expr}
    (h : e.Aligned a e') (hd : e.Supplies C) :
    Reported.Agree C (Value.Aligned C a) (extract site b e) (extract site' b e') := by
  cases h with
  | literal hl => exact extractLiteral_agree hs b hl hd
  | array type elements span =>
    rw [extract, extract]
    refine (extractAll_agree hs b elements hd.of_array).bind fun vs vs' hvs => ?_
    exact Reported.agree_pure (.positional type hvs span)
  | object type arguments initializer span =>
    cases initializer with
    | fields hfs =>
      rw [extract, extract]
      refine (extractFields_agree hs b hfs hd.of_fields).bind fun fs fs' hfs => ?_
      exact Reported.agree_pure (.named type hfs span)
    | elements hes =>
      rw [extract, extract]
      refine (extractAll_agree hs b hes hd.of_elements).bind fun vs vs' hvs => ?_
      exact Reported.agree_pure (.positional type hvs span)
    | absent =>
      -- without braces the arguments are the elements, if there are any
      cases arguments with
      | none => exact Reported.agree_pure (.named type .nil span)
      | some hxs =>
        cases hxs with
        | nil => exact Reported.agree_pure (.named type .nil span)
        | cons head tail =>
          rw [extract, extract]
          refine (extractArguments_agree hs b (.cons head tail) hd.of_arguments).bind
            fun vs vs' hvs => ?_
          exact Reported.agree_pure (.positional type hvs span)
  | call types target arguments span =>
    rw [extract, extract, arguments.length_eq]
    exact extractCall_agree hs (hd.of_code rfl) target _ span
  | paren inner _ =>
    rw [extract, extract]
    exact extract_agree hs b inner (.inl (hd.of_code rfl))
  | name word span =>
    rw [extract, extract]
    split
    · exact Reported.agree_pure (.single (hd.of_code rfl _) span)
    · exact extractConstant_agree hs (hd.of_code rfl) (.name word span)
  | member conditional word target span =>
    exact extractConstant_agree hs (hd.of_code rfl) (.member conditional word target span)
  | binary op left right span =>
    exact extractConstant_agree hs (hd.of_code rfl) (.binary op left right span)
  | unary op operand span =>
    exact extractConstant_agree hs (hd.of_code rfl) (.unary op operand span)
  | cast type operand span =>
    exact extractConstant_agree hs (hd.of_code rfl) (.cast type operand span)
  | index _ _ span | lambda _ _ span | blockLambda _ _ span | assign _ _ _ span
  | conditional _ _ _ span | typeOperator _ span | typeName _ span | unparsed span =>
    exact hs.agree_refuse _ span
termination_by sizeOf e

theorem extractAll_agree (hs : site.Aligned C a site') (b : Bindings) {es es' : List Expr}
    (h : List.Forall₂ (Expr.Aligned a) es es') (hd : ∀ e ∈ es, e.Supplies C) :
    Reported.Agree C (List.Forall₂ (Value.Aligned C a)) (extractAll site b es)
      (extractAll site' b es') := by
  cases h with
  | nil => exact Reported.agree_pure .nil
  | cons head tail =>
    rw [extractAll, extractAll]
    refine (extract_agree hs b head (hd _ (List.mem_cons_self ..))).bind fun v v' hv => ?_
    refine (extractAll_agree hs b tail fun x hx => hd x (List.mem_cons_of_mem _ hx)).bind
      fun vs vs' hvs => ?_
    exact Reported.agree_pure (.cons hv hvs)
termination_by sizeOf es

theorem extractFields_agree (hs : site.Aligned C a site') (b : Bindings)
    {fs fs' : List FieldValue} (h : List.Forall₂ (FieldValue.Aligned a) fs fs')
    (hd : ∀ f ∈ fs, f.value.Supplies C) :
    Reported.Agree C (List.Forall₂ (Field.Aligned C a)) (extractFields site b fs)
      (extractFields site' b fs') := by
  cases h with
  | nil => exact Reported.agree_pure .nil
  | cons head tail =>
    cases head with
    | mk name value span =>
      rw [extractFields, extractFields]
      refine (extract_agree hs b value (hd _ (List.mem_cons_self ..))).bind fun v v' hv => ?_
      refine (extractFields_agree hs b tail fun x hx => hd x (List.mem_cons_of_mem _ hx)).bind
        fun vs vs' hvs => ?_
      exact Reported.agree_pure (.cons (.mk name hv) hvs)
termination_by sizeOf fs

theorem extractArguments_agree (hs : site.Aligned C a site') (b : Bindings)
    {xs xs' : List Argument} (h : List.Forall₂ (Argument.Aligned a) xs xs')
    (hd : ∀ x ∈ xs, x.value.Supplies C) :
    Reported.Agree C (List.Forall₂ (Value.Aligned C a)) (extractArguments site b xs)
      (extractArguments site' b xs') := by
  cases h with
  | nil => exact Reported.agree_pure .nil
  | cons head tail =>
    cases head with
    | mk name value span =>
      rw [extractArguments, extractArguments]
      refine (extract_agree hs b value (hd _ (List.mem_cons_self ..))).bind fun v v' hv => ?_
      refine (extractArguments_agree hs b tail fun x hx => hd x (List.mem_cons_of_mem _ hx)).bind
        fun vs vs' hvs => ?_
      exact Reported.agree_pure (.cons hv hvs)
termination_by sizeOf xs

end

end GatewayPolicy
