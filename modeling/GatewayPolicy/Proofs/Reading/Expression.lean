import GatewayPolicy.Authoring.Expression
import GatewayPolicy.Proofs.Reading.Skipping
import GatewayPolicy.Proofs.Reading.Tree

/-! # Expressions, side by side

  One lemma for each production. `Grammar.aligned_within` ties them together by
  induction on the levels of nesting that are allowed.
-/

namespace GatewayPolicy

/-- A grammar that reads aligned files alike. -/
structure Grammar.Aligned (a : Alignment) (g : Grammar) : Prop where
  assignment : Parse.Aligned a (Expr.Aligned a) g.assignment g.assignment
  unary : Parse.Aligned a (Expr.Aligned a) g.unary g.unary

namespace Parse

variable {a : Alignment} {g : Grammar}

/-! ## Arguments -/

theorem aligned_argument (hg : g.Aligned a) (inAttribute : Bool) :
    Aligned a (Argument.Aligned a) (argument g inAttribute) (argument g inAttribute) := by
  refine aligned_here.bind fun s s' hs => ?_
  refine aligned_peek.bind fun t t' ht => ?_
  refine (aligned_peekAt 1).bind fun u u' hu => ?_
  extract_lets named value modified named' value' modified'
  have hnamed : named = named' := by
    simp only [named, named', Alignment.isIdentifier_eq ht, Alignment.isSymbol_eq hu]
  have hvalue : ∀ r, Aligned a (Argument.Aligned a) (value r) (value' r) := by
    intro r
    refine hg.assignment.bind fun e e' he => ?_
    refine aligned_last.bind fun l l' hl => ?_
    rw [← hnamed, ← a.text_eq ht]
    exact aligned_pure (.mk _ he (a.cover hs hl))
  have hmodified : ∀ r, Aligned a (Argument.Aligned a) (modified r) (modified' r) := by
    intro r
    by_cases h : inAttribute = true
    · simp only [modified, modified', if_pos h]
      exact hvalue ()
    · simp only [modified, modified', if_neg h]
      exact (aligned_takeWhile (Alignment.tests_isAnyWord _)).bind fun _ _ _ => hvalue ()
  rw [← hnamed]
  split
  · exact aligned_advance.bind fun _ _ _ => aligned_advance.bind fun _ _ _ => hmodified ()
  · exact hmodified ()

theorem aligned_argumentList (hg : g.Aligned a) :
    Aligned a (List.Forall₂ (Argument.Aligned a)) (argumentList g) (argumentList g) := by
  refine (aligned_expect _).bind fun _ _ _ => ?_
  refine Aligned.bind (R := List.Forall₂ (Argument.Aligned a)) ?_ fun as as' has => ?_
  · refine (aligned_at _).bind_eq fun b => ?_
    split
    · exact aligned_pure .nil
    · exact (aligned_argument hg false).commaList
  · exact (aligned_expect _).bind fun _ _ _ => aligned_pure has

theorem aligned_callOf (hg : g.Aligned a) {e e' : Expr} (he : e.Aligned a e')
    (types : List String) : Aligned a (Expr.Aligned a) (callOf g e types) (callOf g e' types) := by
  refine (aligned_argumentList hg).bind fun as as' has => ?_
  refine aligned_last.bind fun l l' hl => ?_
  exact aligned_pure (.call types he has (a.cover_spans he.span_aligned hl))

theorem aligned_genericCall (hg : g.Aligned a) {e e' : Expr} (he : e.Aligned a e') :
    Aligned a (Expr.Aligned a) (genericCall g e) (genericCall g e') := by
  refine (aligned_at _).bind_eq fun b => ?_
  split
  · refine aligned_callTypeArguments.attempt.bind fun types types' htypes => ?_
    cases htypes with
    | some h =>
      subst h
      exact aligned_callOf hg he _
    | none => exact aligned_pure he
  · exact aligned_pure he

/-! ## New objects and arrays -/

theorem Aligned.fieldValue {p q : Parse Expr} (hp : Aligned a (Expr.Aligned a) p q) :
    Aligned a (FieldValue.Aligned a) (Parse.fieldValue p) (Parse.fieldValue q) := by
  refine aligned_expectName.bind fun t t' ht => ?_
  refine (aligned_expect _).bind fun _ _ _ => ?_
  refine hp.bind fun e e' he => ?_
  rw [← a.text_eq ht.1]
  exact aligned_pure (.mk _ he (a.cover (a.place_of ht.1) he.span_aligned))

theorem Aligned.initializerOf {p q : Parse Expr} (hp : Aligned a (Expr.Aligned a) p q) :
    Aligned a (Initializer.Aligned a) (Parse.initializerOf p) (Parse.initializerOf q) := by
  refine (aligned_expect _).bind fun _ _ _ => ?_
  refine (aligned_eat _).bind_eq fun b => ?_
  split
  · exact aligned_pure (.fields .nil)
  · refine aligned_peek.bind fun t t' ht => ?_
    refine (aligned_peekAt 1).bind fun u u' hu => ?_
    rw [← Alignment.isIdentifier_eq ht, ← Alignment.isSymbol_eq hu]
    split
    · exact (hp.fieldValue.itemsUntil _).bind fun fs fs' hfs => aligned_pure (.fields hfs)
    · exact (hp.itemsUntil _).bind fun es es' hes => aligned_pure (.elements hes)

theorem aligned_initializerValueWithin (hg : g.Aligned a) (depth : Nat) :
    Aligned a (Expr.Aligned a) (initializerValueWithin g depth)
      (initializerValueWithin g depth) := by
  induction depth with
  | zero => exact hg.assignment
  | succ depth ih =>
    intro c c' hc n n' hn
    unfold initializerValueWithin
    rw [← Alignment.isSymbol_eq hc.peek]
    split
    · refine Aligned.bind (Q := Expr.Aligned a) aligned_here (fun s s' hs => ?_) hc hn
      refine ih.initializerOf.bind fun i i' hi => ?_
      refine aligned_last.bind fun l l' hl => ?_
      exact aligned_pure (.object none .none hi (a.cover hs hl))
    · exact hg.assignment hc hn

theorem aligned_initializerValue (hg : g.Aligned a) :
    Aligned a (Expr.Aligned a) (initializerValue g) (initializerValue g) :=
  aligned_bounded (aligned_initializerValueWithin hg)

theorem aligned_elements (hg : g.Aligned a) (close : Symbol) :
    Aligned a (List.Forall₂ (Expr.Aligned a)) (elements g close) (elements g close) :=
  (aligned_initializerValue hg).itemsUntil close

theorem aligned_newArray (hg : g.Aligned a) {s s' : Span} (hs : a.place s s')
    (type : Option String) :
    Aligned a (Expr.Aligned a) (newArray g s type) (newArray g s' type) := by
  refine (aligned_at _).bind_eq fun b => ?_
  -- a length in brackets is passed over
  extract_lets items items'
  have hitems : ∀ r, Aligned a (Expr.Aligned a) (items r) (items' r) := by
    intro r
    refine Aligned.bind (R := List.Forall₂ (Expr.Aligned a)) ?_ fun es es' hes => ?_
    · refine (aligned_eat _).bind_eq fun b => ?_
      split
      · exact aligned_elements hg _
      · exact aligned_pure .nil
    · refine aligned_last.bind fun l l' hl => ?_
      exact aligned_pure (.array _ hes (a.cover hs hl))
  split
  · exact aligned_skipGroup.bind fun _ _ _ => hitems ()
  · exact hitems ()

theorem aligned_newObject (hg : g.Aligned a) {s s' : Span} (hs : a.place s s')
    (type : Option String) :
    Aligned a (Expr.Aligned a) (newObject g s type) (newObject g s' type) := by
  refine Aligned.bind (R := Option.Rel (List.Forall₂ (Argument.Aligned a))) ?_
    fun as as' has => ?_
  · refine (aligned_at _).bind_eq fun b => ?_
    split
    · exact (aligned_argumentList hg).bind fun as as' has => aligned_pure (.some has)
    · exact aligned_pure .none
  refine (aligned_at _).bind_eq fun b => ?_
  split
  · refine (aligned_initializerValue hg).initializerOf.bind fun i i' hi => ?_
    refine aligned_last.bind fun l l' hl => ?_
    exact aligned_pure (.object type has hi (a.cover hs hl))
  · extract_lets plain plain'
    have hplain : ∀ r, Aligned a (Expr.Aligned a) (plain r) (plain' r) := by
      intro r
      refine aligned_last.bind fun l l' hl => ?_
      exact aligned_pure (.object type has .absent (a.cover hs hl))
    -- without braces there have to be parentheses
    cases has with
    | some h => exact hplain ()
    | none => exact (aligned_expected _).bind_eq hplain

theorem aligned_newExpression (hg : g.Aligned a) :
    Aligned a (Expr.Aligned a) (newExpression g) (newExpression g) := by
  refine (aligned_expectWord _).bind fun t t' ht => ?_
  have hs := a.place_of ht.1
  refine (aligned_at _).bind_eq fun b => ?_
  split
  · refine aligned_skipGroup.bind fun _ _ _ => ?_
    refine (aligned_expect _).bind fun _ _ _ => ?_
    refine (aligned_elements hg _).bind fun es es' hes => ?_
    refine aligned_last.bind fun l l' hl => ?_
    exact aligned_pure (.array none hes (a.cover hs hl))
  · refine Aligned.bind_eq ?_ fun type => ?_
    · refine (aligned_atAny _).bind_eq fun b => ?_
      split
      · exact aligned_pure rfl
      · exact aligned_typeName.bind_eq fun type => aligned_pure rfl
    · refine (aligned_at _).bind_eq fun b => ?_
      split
      · exact aligned_newArray hg hs type
      · exact aligned_newObject hg hs type

/-! ## Primary expressions -/

theorem aligned_literalOf {t : Token} (hinside : t.isEof = false) {kind : LiteralKind}
    {value : String} (hword : kind = .boolean → value = "true" ∨ value = "false")
    (hnumeral : kind = .number → a.Numeral value) :
    AlignedWhere a (·.peek = t) (Expr.Aligned a) (literalOf kind value)
      (literalOf kind value) := by
  rintro c c' hc rfl n n' hn
  have hliteral : Literal.Aligned a ⟨kind, value, c.peek.span⟩ ⟨kind, value, c'.peek.span⟩ :=
    ⟨rfl, rfl, ⟨_, _, hc.peek, hinside, rfl, rfl⟩, hword, hnumeral⟩
  exact .ok (.literal hliteral) hc.next hn

theorem aligned_wordExpression (hg : g.Aligned a) {t t' : Token} (ht : a.token t t')
    (hkind : t.kind = .identifier) :
    AlignedWhere a (·.peek = t) (Expr.Aligned a) (wordExpression g t) (wordExpression g t') := by
  have hword : a.Word t.text := ⟨t, t', ht, decide_eq_true hkind, rfl⟩
  have hinside := Token.not_eof_of_isIdentifier (decide_eq_true hkind)
  unfold wordExpression
  rw [← a.text_eq ht]
  -- booleans
  split
  · rename_i hword
    refine aligned_literalOf hinside (fun _ => ?_) nofun
    simpa using hword
  -- null
  split
  · exact aligned_literalOf hinside nofun nofun
  apply Aligned.where
  split
  · exact aligned_newExpression hg
  -- words that stand for a value of their own
  split
  · exact aligned_advance.bind fun _ _ _ => aligned_pure (.name hword (a.span_of ht hinside))
  -- operators on types, whose operand is passed over
  split
  · refine aligned_advance.bind fun _ _ _ => ?_
    refine (aligned_at _).bind_eq fun b => ?_
    extract_lets operator operator'
    have hoperator : ∀ r, Aligned a (Expr.Aligned a) (operator r) (operator' r) := by
      intro r
      refine aligned_last.bind fun l l' hl => ?_
      exact aligned_pure (.typeOperator _ (a.cover (a.place_of ht) hl))
    split
    · exact aligned_skipGroup.bind fun _ _ _ => hoperator ()
    · exact hoperator ()
  -- other words of the language, and names
  split
  · exact aligned_expected _
  · refine aligned_advance.bind fun _ _ _ => ?_
    exact aligned_genericCall hg (.name hword (a.span_of ht hinside))

theorem aligned_primary (hg : g.Aligned a) :
    Aligned a (Expr.Aligned a) (primary g) (primary g) := by
  refine aligned_peek_where fun t t' ht => ?_
  have hinside : ∀ {k}, t.kind = k → k ≠ .eof → t.isEof = false := by
    rintro _ rfl hk
    exact decide_eq_false hk
  rw [← a.kind_eq ht, ← a.text_eq ht]
  -- literals come first, then words, parentheses and brackets
  split
  · rename_i hkind
    exact aligned_literalOf (hinside hkind nofun) nofun fun _ => ⟨t, t', ht, .inl hkind, rfl⟩
  · rename_i hkind
    exact aligned_literalOf (hinside hkind nofun) nofun fun _ => ⟨t, t', ht, .inr hkind, rfl⟩
  · rename_i hkind
    exact aligned_literalOf (hinside hkind nofun) nofun nofun
  · rename_i hkind
    exact aligned_literalOf (hinside hkind nofun) nofun nofun
  · rename_i hkind
    exact aligned_literalOf (hinside hkind nofun) nofun nofun
  · rename_i hkind
    exact aligned_literalOf (hinside hkind nofun) nofun nofun
  · rename_i hkind
    exact aligned_wordExpression hg ht hkind
  all_goals apply Aligned.where
  · refine aligned_advance.bind fun _ _ _ => ?_
    refine hg.assignment.bind fun e e' he => ?_
    refine (aligned_expect _).bind fun u u' hu => ?_
    exact aligned_pure (.paren he (a.cover (a.place_of ht) (a.span_of_symbol hu)))
  · refine aligned_advance.bind fun _ _ _ => ?_
    refine (aligned_elements hg _).bind fun es es' hes => ?_
    refine aligned_last.bind fun l l' hl => ?_
    exact aligned_pure (.array none hes (a.cover (a.place_of ht) hl))
  · exact aligned_expected _
  · exact aligned_expected _

/-! ## Trailers -/

theorem aligned_memberOf {e e' : Expr} (he : e.Aligned a e') (conditional : Bool) :
    Aligned a (Expr.Aligned a) (memberOf e conditional) (memberOf e' conditional) := by
  refine aligned_peek.bind fun t t' ht => ?_
  rw [← Alignment.isIdentifier_eq ht, ← a.text_eq ht]
  split
  · rename_i hidentifier
    refine aligned_advance.bind fun _ _ _ => ?_
    exact aligned_pure (.member _ ⟨t, t', ht, hidentifier, rfl⟩ he
      (a.cover_spans he.span_aligned
        (a.span_of ht (Token.not_eof_of_isIdentifier hidentifier))))
  · exact aligned_expected _

theorem aligned_indexOf (hg : g.Aligned a) {e e' : Expr} (he : e.Aligned a e') :
    Aligned a (Expr.Aligned a) (indexOf g e) (indexOf g e') := by
  refine (aligned_argument hg false).commaList.bind fun as as' has => ?_
  refine (aligned_expect _).bind fun t t' ht => ?_
  exact aligned_pure (.index he has (a.cover_spans he.span_aligned (a.span_of_symbol ht)))

theorem aligned_trailersWithin (hg : g.Aligned a) (k : Nat) {e e' : Expr}
    (he : e.Aligned a e') :
    Aligned a (Expr.Aligned a) (trailersWithin g k e) (trailersWithin g k e') := by
  induction k generalizing e e' with
  | zero => exact aligned_pure he
  | succ k ih =>
    refine aligned_peek.bind fun t t' ht => ?_
    simp only [← Alignment.isSymbol_eq ht, ← Alignment.isAnySymbol_eq ht]
    split
    · refine aligned_advance.bind fun _ _ _ => ?_
      refine (aligned_memberOf he _).bind fun f f' hf => ?_
      exact (aligned_genericCall hg hf).bind fun _ _ h => ih h
    split
    · exact (aligned_callOf hg he []).bind fun _ _ h => ih h
    split
    · refine aligned_advance.bind fun _ _ _ => ?_
      exact (aligned_indexOf hg he).bind fun _ _ h => ih h
    split
    · rename_i hoperator
      have hinside := Token.not_eof_of_isAnySymbol hoperator
      refine aligned_advance.bind fun _ _ _ => ?_
      exact ih (.unary _ he (a.cover_spans he.span_aligned (a.span_of ht hinside)))
    · -- a bang behind an expression is passed over where it cannot be an operator
      refine (aligned_peekAt 1).bind fun u u' hu => ?_
      rw [← Alignment.isAnySymbol_eq hu]
      split
      · exact aligned_advance.bind fun _ _ _ => ih he
      · exact aligned_pure he

theorem aligned_trailers (hg : g.Aligned a) {e e' : Expr} (he : e.Aligned a e') :
    Aligned a (Expr.Aligned a) (trailers g e) (trailers g e') :=
  aligned_bounded fun k => aligned_trailersWithin hg k he

/-! ## Unary operators and casts -/

theorem startsCastOperand_eq {t t' : Token} (h : a.token t t') :
    startsCastOperand t = startsCastOperand t' := by
  rw [startsCastOperand, startsCastOperand, Alignment.isIdentifier_eq h, Alignment.isLiteral_eq h,
    Alignment.isAnySymbol_eq h, a.text_eq h]

theorem aligned_castExpression (hg : g.Aligned a) :
    Aligned a (Expr.Aligned a) (castExpression g) (castExpression g) := by
  refine (aligned_expect _).bind fun t t' ht => ?_
  refine aligned_typeName.bind_eq fun type => ?_
  refine (aligned_expect _).bind fun _ _ _ => ?_
  refine aligned_peek.bind fun u u' hu => ?_
  rw [← startsCastOperand_eq hu]
  split
  · refine hg.unary.bind fun e e' he => ?_
    exact aligned_pure (.cast type he (a.cover (a.place_of ht.1) he.span_aligned))
  · exact aligned_expected _

theorem leadingOperator_eq {t t' u u' : Token} (ht : a.token t t') (hu : a.token u u') :
    leadingOperator? t u = leadingOperator? t' u' := by
  rw [leadingOperator?, leadingOperator?, a.kind_eq ht, Alignment.isWord_eq ht,
    Alignment.isAnySymbol_eq hu]

theorem aligned_unaryOf (hg : g.Aligned a) :
    Aligned a (Expr.Aligned a) (unaryOf g) (unaryOf g) := by
  have hprimary : Aligned a (Expr.Aligned a) (do trailers g (← primary g))
      (do trailers g (← primary g)) :=
    (aligned_primary hg).bind fun _ _ he => aligned_trailers hg he
  refine aligned_peek.bind fun t t' ht => ?_
  refine (aligned_peekAt 1).bind fun u u' hu => ?_
  rw [← leadingOperator_eq ht hu, ← Alignment.isSymbol_eq ht]
  split
  · refine aligned_advance.bind fun _ _ _ => ?_
    refine hg.unary.bind fun e e' he => ?_
    exact aligned_pure (.unary _ he (a.cover (a.place_of ht) he.span_aligned))
  · split
    · -- a parenthesis may begin a cast, which is tried first
      refine (aligned_castExpression hg).attempt.bind fun e e' he => ?_
      cases he with
      | some h => exact aligned_pure h
      | none => exact hprimary
    · exact hprimary

/-! ## Binary operators -/

/-- Whether two angle brackets are a shift depends on whether they touch. -/
theorem binaryOperator_eq {t t' u u' : Token} (ht : a.token t t') (hu : a.token u u')
    (htouch : u.isEof = false → (u.span.start = t.span.stop ↔ u'.span.start = t'.span.stop)) :
    binaryOperator? t u = binaryOperator? t' u' := by
  have hshift : (u.isSymbol .greater && decide (u.span.start = t.span.stop)) =
      (u'.isSymbol .greater && decide (u'.span.start = t'.span.stop)) := by
    rw [← Alignment.isSymbol_eq hu]
    -- the tokens are compared only if the second is a bracket, which the end is not
    cases hg : u.isSymbol .greater with
    | false => rfl
    | true =>
      have heof : u.isEof = false := by
        simp only [Token.isSymbol, decide_eq_true_eq] at hg
        simp [Token.isEof, hg]
      simp only [htouch heof]
  unfold binaryOperator?
  simp only [Bool.and_assoc, hshift]
  rw [Alignment.isWord_eq ht, Alignment.isWord_eq ht, a.kind_eq ht]

/-- What follows a look at the next two tokens may ask whether they touch. -/
theorem aligned_peekTwo {β : Type} {Q : β → β → Prop} {f g : Token → Token → Parse β}
    (h : ∀ t t' u u', a.token t t' → a.token u u' →
      (u.isEof = false → (u.span.start = t.span.stop ↔ u'.span.start = t'.span.stop)) →
        Aligned a Q (f t u) (g t' u')) :
    Aligned a Q (do f (← peek) (← peekAt 1)) (do g (← peek) (← peekAt 1)) :=
  fun _ _ hc _ _ hn => h _ _ _ _ hc.peek (hc.peekAt 1) hc.touch hc hn

theorem aligned_typePattern (hg : g.Aligned a) :
    Aligned a (Expr.Aligned a) (typePattern g) (typePattern g) := by
  refine aligned_here.bind fun s s' hs => ?_
  refine (aligned_eatWord _).bind_eq fun _ => ?_
  refine aligned_peek.bind fun t t' ht => ?_
  rw [← Alignment.isLiteral_eq ht, ← Alignment.isAnyWord_eq ht, ← Alignment.isSymbol_eq ht]
  split
  · exact aligned_primary hg
  split
  · refine aligned_skipGroup.bind fun r r' hr => ?_
    exact aligned_pure (.typeName _ (a.cover hs hr))
  · refine aligned_typeName.bind_eq fun type => ?_
    refine aligned_peek.bind fun u u' hu => ?_
    extract_lets tail tail'
    have htail : ∀ r, Aligned a (Expr.Aligned a) (tail r) (tail' r) := by
      intro r
      refine aligned_last.bind fun l l' hl => ?_
      exact aligned_pure (.typeName _ (a.cover hs hl))
    rw [← Alignment.isName_eq hu]
    split
    · exact aligned_advance.bind fun _ _ _ => htail ()
    · exact htail ()

theorem aligned_operandsWithin (hg : g.Aligned a) (k least : Nat) {e e' : Expr}
    (he : e.Aligned a e') :
    Aligned a (Expr.Aligned a) (operandsWithin g k least e) (operandsWithin g k least e') := by
  induction k generalizing least e e' with
  | zero => exact aligned_pure he
  | succ k ih =>
    refine aligned_peekTwo fun t t' u u' ht hu htouch => ?_
    rw [← binaryOperator_eq ht hu htouch]
    split
    · exact aligned_pure he
    · split
      · exact aligned_pure he
      · -- a shift to the right is made of two tokens
        refine aligned_advance.bind fun _ _ _ => ?_
        extract_lets right right'
        have hright : ∀ r, Aligned a (Expr.Aligned a) (right r) (right' r) := by
          intro r
          refine Aligned.bind (R := Expr.Aligned a) ?_ fun f f' hf => ?_
          · split
            · exact aligned_typePattern hg
            · exact hg.unary.bind fun _ _ h => ih _ h
          · exact ih _ (.binary _ he hf (a.cover_spans he.span_aligned hf.span_aligned))
        split
        · exact aligned_advance.bind fun _ _ _ => hright ()
        · exact hright ()

theorem aligned_operands (hg : g.Aligned a) (least : Nat) :
    Aligned a (Expr.Aligned a) (operands g least) (operands g least) :=
  hg.unary.bind fun _ _ he => aligned_bounded fun k => aligned_operandsWithin hg k least he

theorem aligned_conditional (hg : g.Aligned a) :
    Aligned a (Expr.Aligned a) (conditional g) (conditional g) := by
  refine (aligned_operands hg 1).bind fun d d' hd => ?_
  refine (aligned_eat _).bind_eq fun b => ?_
  split
  · refine hg.assignment.bind fun e e' he => ?_
    refine (aligned_expect _).bind fun _ _ _ => ?_
    refine hg.assignment.bind fun f f' hf => ?_
    exact aligned_pure (.conditional hd he hf (a.cover_spans hd.span_aligned hf.span_aligned))
  · exact aligned_pure hd

/-! ## Lambdas -/

theorem arrowFollows_eq {ts ts' : List Token} (h : a.Runs ts ts') (depth : Nat) :
    arrowFollows depth ts = arrowFollows depth ts' := by
  induction h generalizing depth with
  | nil => rfl
  | cons head _ _ tail ih =>
    unfold arrowFollows
    rw [← Alignment.isSymbol_eq head, ← Alignment.isSymbol_eq head]
    split
    · exact ih _
    split
    · split
      · exact ih _
      · cases tail with
        | nil => rfl
        | cons head _ _ _ => exact Alignment.isSymbol_eq head _
    · exact ih _

/-- The same names, up to corresponding tokens. -/
theorem lambdaNames_aligned {ts ts' : List Token} (h : a.Runs ts ts') (depth : Nat)
    (current : Option String) {last last' : Span} (hl : a.span last last') :
    (lambdaNames depth current last ts).1 = (lambdaNames depth current last' ts').1 ∧
      a.Ends (lambdaNames depth current last ts).2 (lambdaNames depth current last' ts').2 := by
  induction h generalizing depth current last last' with
  | nil => exact ⟨rfl, hl, .nil⟩
  | cons head inside _ tail ih =>
    have hspan := a.span_of head inside
    unfold lambdaNames
    rw [← Alignment.isAnySymbol_eq head, ← Alignment.isAnySymbol_eq head,
      ← Alignment.isSymbol_eq head, ← Alignment.isSymbol_eq head, ← Alignment.isIdentifier_eq head,
      ← a.text_eq head]
    split
    · exact ih _ _ hspan
    split
    · exact ih _ _ hspan
    split
    · exact ⟨rfl, hspan, tail⟩
    split
    · obtain ⟨hnames, hends⟩ := ih depth none hspan
      exact ⟨congrArg (current.toList ++ ·) hnames, hends⟩
    split
    · exact ih _ _ hspan
    · exact ih _ _ hspan

theorem aligned_lambdaParameters : Aligned a Eq lambdaParameters? lambdaParameters? := by
  refine aligned_cursor.bind fun start start' hstart => ?_
  refine (aligned_peekAt 1).bind fun t t' ht => ?_
  refine (aligned_atWord _).bind_eq fun b => ?_
  -- one name, or names in parentheses in front of an arrow; `async` may lead them
  extract_lets tail tail'
  have htail : ∀ r, Aligned a Eq (tail r) (tail' r) := by
    intro r
    refine aligned_cursor.bind fun c c' hc => ?_
    rw [← Alignment.isName_eq hc.peek, ← Alignment.isSymbol_eq (hc.peekAt 1),
      ← Alignment.isSymbol_eq hc.peek, ← arrowFollows_eq hc.rest, ← a.text_eq hc.peek]
    split
    · exact aligned_advance.bind fun _ _ _ => aligned_pure rfl
    split
    · rename_i harrow
      have hopening := (Bool.and_eq_true_iff.mp harrow).1
      obtain ⟨hnames, hlast, hrest⟩ :=
        lambdaNames_aligned hc.next.rest 0 none (a.span_of_symbol ⟨hc.peek, hopening⟩)
      have hbehind : a.Cursors ⟨_, _, c.stop⟩ ⟨_, _, c'.stop⟩ := ⟨hlast, hrest, hc.stop⟩
      refine (aligned_rewind hbehind).bind_eq fun _ => ?_
      exact aligned_pure (congrArg some hnames)
    · exact (aligned_rewind hstart).bind_eq fun _ => aligned_pure rfl
  rw [← Alignment.isIdentifier_eq ht, ← Alignment.isSymbol_eq ht]
  split
  · exact aligned_advance.bind fun _ _ _ => htail ()
  · exact htail ()

theorem aligned_lambda (hg : g.Aligned a) :
    Aligned a (Option.Rel (Expr.Aligned a)) (lambda? g) (lambda? g) := by
  refine aligned_here.bind fun s s' hs => ?_
  refine aligned_lambdaParameters.bind_eq fun parameters => ?_
  split
  · exact aligned_pure .none
  · refine (aligned_expect _).bind fun _ _ _ => ?_
    refine (aligned_at _).bind_eq fun b => ?_
    split
    · refine aligned_skipGroup.bind fun r r' hr => ?_
      refine aligned_last.bind fun l l' hl => ?_
      exact aligned_pure (.some (.blockLambda _ hr (a.cover hs hl)))
    · refine hg.assignment.bind fun e e' he => ?_
      refine aligned_last.bind fun l l' hl => ?_
      exact aligned_pure (.some (.lambda _ he (a.cover hs hl)))

/-! ## Assignments -/

theorem aligned_assignmentOf (hg : g.Aligned a) :
    Aligned a (Expr.Aligned a) (assignmentOf g) (assignmentOf g) := by
  refine (aligned_lambda hg).bind fun e e' he => ?_
  cases he with
  | some h => exact aligned_pure h
  | none =>
    refine (aligned_conditional hg).bind fun e e' he => ?_
    refine aligned_peek.bind fun t t' ht => ?_
    rw [← a.kind_eq ht]
    extract_lets op
    clear_value op
    cases op with
    | none => exact aligned_pure he
    | some op =>
      refine aligned_advance.bind fun _ _ _ => ?_
      refine hg.assignment.bind fun f f' hf => ?_
      exact aligned_pure (.assign _ he hf (a.cover_spans he.span_aligned hf.span_aligned))

end Parse

/-- Every grammar reads aligned files alike. -/
theorem Grammar.aligned_within {a : Alignment} (levels : Nat) :
    (Grammar.within levels).Aligned a := by
  -- each level reads its parts with the grammar one level deeper
  induction levels with
  | zero => exact ⟨Parse.aligned_tooDeep, Parse.aligned_tooDeep⟩
  | succ levels ih => exact ⟨Parse.aligned_assignmentOf ih, Parse.aligned_unaryOf ih⟩

end GatewayPolicy
