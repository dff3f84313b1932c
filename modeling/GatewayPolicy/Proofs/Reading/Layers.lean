import GatewayPolicy.Proofs.Reading.Fragments
import GatewayPolicy.Proofs.Reading.OperatorPlaces
import GatewayPolicy.Proofs.Reading.Precedence

/-! # Levels of expressions

  An expression that is read with some levels of nesting left has parts in delimiters of its
  own, which are read with one level less, and other parts, which may have as many levels
  left as the expression itself: the target of a call is read before the call is known, and
  the operands of an operator are joined by a loop. Braces in an initializer are special.
  They may stand inside each other without a level for each.

  - `Expr.outer` and `Expr.inner` are the parts outside and inside of delimiters.
  - `Expr.Layers` is what holds of an expression because it holds of its parts.
  - `Grammar.makes_within` is the result: it holds of every expression that is read.
-/

namespace GatewayPolicy

-- a production of many steps takes an instance for each of them
set_option synthInstance.maxSize 1024

namespace Expr

/-- What holds of an expression with some levels of nesting left (`P`) and with one more
    (`Q`), because it holds of its parts. `start` is where reading began. -/
structure Layers (start : Cursor) (P Q : Expr → Prop) : Prop where
  mono : ∀ {e : Expr}, P e → Q e
  node : ∀ {e : Expr}, e.Grouped → (∀ x ∈ e.outer, Q x) → (∀ x ∈ e.inner, P x) → Q e
  /-- Braces of an initializer that stand for an expression. -/
  bare : ∀ {c d : Cursor} {braces : Initializer}, start.Reaches c → c.Passes d →
    c.peek.isSymbol .openBrace = true → (∀ x ∈ braces.parts, P x) →
    P (.object none none braces (c.peek.span.cover d.last))

namespace Layers

variable {start : Cursor} {P Q : Expr → Prop} {e : Expr}

/-- An expression that no operator joins, from its parts. -/
theorem operand (h : Layers start P Q) (hnone : e.operator? = none) (houter : ∀ x ∈ e.outer, Q x)
    (hinner : ∀ x ∈ e.inner, P x) : e.IsOperand Q :=
  ⟨h.node (grouped_of_operator hnone) houter hinner, hnone⟩

/-- The same for parts that are all read with less levels left. -/
theorem operand_of_parts (h : Layers start P Q) (hnone : e.operator? = none)
    (hparts : ∀ x ∈ e.parts, P x) : e.IsOperand Q := by
  rw [parts] at hparts
  obtain ⟨houter, hinner⟩ := List.forall_mem_append.1 hparts
  exact h.operand hnone (fun x hx => h.mono (houter x hx)) hinner

end Layers

end Expr

/-- A grammar whose expressions have a property if they are read behind `start`. -/
structure Grammar.Makes (start : Cursor) (P : Expr → Prop) (g : Grammar) : Prop where
  assignment : g.assignment.Makes start P
  unary : g.unary.Makes start (Expr.IsOperand P)

namespace Parse

theorem makes_pure {start : Cursor} {P : Expr → Prop} {e : Expr} (h : P e) :
    Makes start P (Pure.pure e) :=
  collects_of_all (List.forall_mem_singleton.2 h)

theorem Makes.weaken {start : Cursor} {P Q : Expr → Prop} {p : Parse Expr} (hp : p.Makes start P)
    (himp : ∀ {e}, P e → Q e) : p.Makes start Q :=
  Collects.weaken hp fun h hstart => himp (h hstart)

section Layers

variable {start : Cursor} {P Q : Expr → Prop} {g : Grammar} {target : Expr}

/-! ## Calls and initializers -/

theorem callOf_makes (hPQ : Expr.Layers start P Q) (hg : g.Makes start P) (htarget : Q target)
    (types : List String) : (callOf g target types).Makes start (Expr.IsOperand Q) := by
  unfold callOf
  refine (argumentList_collects hg.assignment).bind_ahead (fun _ => inferInstance) ?_
  intro arguments harguments
  apply Forward.bind_collects inferInstance
  intro span
  exact makes_pure (hPQ.operand rfl (List.forall_mem_singleton.2 htarget) harguments)

theorem genericCall_makes (hPQ : Expr.Layers start P Q) (hg : g.Makes start P)
    (htarget : target.IsOperand Q) : (genericCall g target).Makes start (Expr.IsOperand Q) := by
  have hcall := callOf_makes hPQ hg htarget.1
  have htarget : Makes start (Expr.IsOperand Q) (Pure.pure target) := makes_pure htarget
  unfold genericCall
  apply Forward.bind_collects inferInstance
  intro _
  split
  · apply Forward.bind_collects inferInstance
    intro types?
    cases types? with
    | some types => exact hcall types
    | none => exact htarget
  · exact htarget

/-- What stands behind `new` is one operand. -/
theorem newExpression_operator :
    Finishes (fun e _ => e.operator? = none) (newExpression g) := by
  have hdone : ∀ {e : Expr}, e.operator? = none →
      Finishes (fun e _ => e.operator? = none) (Pure.pure e) := fun h =>
    ⟨fun hpure => by cases hpure; exact h⟩
  have harray : ∀ type items s, Finishes (fun e _ => e.operator? = none)
      (Pure.pure (Expr.array type items s)) := fun _ _ _ => hdone rfl
  have hobject : ∀ type arguments braces s, Finishes (fun e _ => e.operator? = none)
      (Pure.pure (Expr.object type arguments braces s)) := fun _ _ _ _ => hdone rfl
  unfold newExpression newArray newObject
  infer_instance

variable [Grammar.Forward g]

theorem initializerValueWithin_makes (hPQ : Expr.Layers start P Q) (hg : g.Makes start P)
    (depth : Nat) : Makes start P (initializerValueWithin g depth) := by
  induction depth with
  | zero => exact hg.assignment
  | succ depth ih =>
    have hforward := @forward_initializerValueWithin g _ depth
    have hstrict := @strict_initializerOf (initializerValueWithin g depth) hforward
    constructor
    intro c d n m e h
    unfold initializerValueWithin at h
    split at h
    · rename_i hbrace
      obtain ⟨_, _, _, hhere, h⟩ := bind_eq_ok h
      cases hhere
      obtain ⟨braces, c', _, hbraces, h⟩ := bind_eq_ok h
      obtain ⟨_, _, _, hlast, h⟩ := bind_eq_ok h
      cases hlast
      cases h
      -- the entries are read with the same grammar, and no level is used up
      obtain ⟨hreach, hparts⟩ := (initializerOf_collects ih).collects hbraces
      refine ⟨hreach, List.forall_mem_singleton.2 ?_⟩
      intro hstart
      exact hPQ.bare hstart (hstrict.passes hbraces) hbrace fun x hx => hparts x hx hstart
    · exact hg.assignment.collects h

theorem initializerValue_makes (hPQ : Expr.Layers start P Q) (hg : g.Makes start P) :
    (initializerValue g).Makes start P :=
  collects_bounded (initializerValueWithin_makes hPQ hg)

theorem newExpression_makes (hPQ : Expr.Layers start P Q) (hg : g.Makes start P) :
    (newExpression g).Makes start (Expr.IsOperand Q) where
  collects h := by
    have hparts : Collects (Cursor.Finds (start.Ahead P)) Expr.parts (newExpression g) :=
      newExpression_collects hg.assignment (initializerValue_makes hPQ hg)
    obtain ⟨hreach, hparts⟩ := hparts.collects h
    refine ⟨hreach, List.forall_mem_singleton.2 ?_⟩
    intro hstart
    exact hPQ.operand_of_parts (newExpression_operator.fits h) fun x hx => hparts x hx hstart

/-! ## Primary expressions -/

/-- An expression of one token, or one that is kept by its place. -/
theorem makes_leaf (hPQ : Expr.Layers start P Q) {e : Expr} (hparts : e.parts = [])
    (hnone : e.operator? = none) : Makes start (Expr.IsOperand Q) (Pure.pure e) := by
  refine makes_pure (hPQ.operand_of_parts hnone ?_)
  rw [hparts]
  exact List.forall_mem_nil _

theorem literalOf_makes (hPQ : Expr.Layers start P Q) (kind : LiteralKind) (value : String) :
    (literalOf kind value).Makes start (Expr.IsOperand Q) :=
  Forward.bind_collects inferInstance fun _ => makes_leaf hPQ rfl rfl

theorem wordExpression_makes (hPQ : Expr.Layers start P Q) (hg : g.Makes start P) (t : Token) :
    (wordExpression g t).Makes start (Expr.IsOperand Q) := by
  have hliteral := literalOf_makes hPQ
  have hnew := newExpression_makes hPQ hg
  have hname : ∀ s, Makes start (Expr.IsOperand Q) (Pure.pure (.name t.text s)) :=
    fun _ => makes_leaf hPQ rfl rfl
  have hoperator : ∀ s, Makes start (Expr.IsOperand Q) (Pure.pure (.typeOperator t.text s)) :=
    fun _ => makes_leaf hPQ rfl rfl
  have hcall : ∀ s, (genericCall g (.name t.text s)).Makes start (Expr.IsOperand Q) :=
    fun _ => genericCall_makes hPQ hg
      (hPQ.operand rfl (List.forall_mem_nil _) (List.forall_mem_nil _))
  unfold wordExpression
  infer_instance

theorem primary_makes (hPQ : Expr.Layers start P Q) (hg : g.Makes start P) :
    (primary g).Makes start (Expr.IsOperand Q) := by
  have hliteral := literalOf_makes hPQ
  have hword := wordExpression_makes hPQ hg
  have hparen : ∀ t : Token, Makes start (Expr.IsOperand Q) (do
      let inner ← g.assignment
      let close ← expect .closeParen
      return .paren inner (t.span.cover close.span)) := by
    intro t
    refine hg.assignment.bind_ahead (fun _ => inferInstance) ?_
    intro inner hinner
    apply Forward.bind_collects inferInstance
    intro close
    exact makes_pure (hPQ.operand rfl (List.forall_mem_nil _) hinner)
  have harray : ∀ t : Token, Makes start (Expr.IsOperand Q) (do
      let items ← elements g .closeBracket
      return .array none items (t.span.cover (← last))) := by
    intro t
    have helements := elements_collects (initializerValue_makes hPQ hg) .closeBracket
    refine helements.bind_ahead (fun _ => inferInstance) ?_
    intro items hitems
    apply Forward.bind_collects inferInstance
    intro span
    exact makes_pure (hPQ.operand rfl (List.forall_mem_nil _) hitems)
  unfold primary
  apply Forward.bind_collects inferInstance
  intro t
  split <;> infer_instance

/-! ## Trailers and operators in front -/

theorem trailersWithin_makes (hPQ : Expr.Layers start P Q) (hg : g.Makes start P) (steps : Nat)
    {e : Expr} (he : e.IsOperand Q) :
    (trailersWithin g steps e).Makes start (Expr.IsOperand Q) := by
  induction steps generalizing e with
  | zero => exact makes_pure he
  | succ steps ih =>
    -- what follows is read on top of any operand
    have hmore : ∀ x, (∀ y ∈ [x], y.IsOperand Q) →
        (trailersWithin g steps x).Makes start (Expr.IsOperand Q) :=
      fun x hx => ih (List.forall_mem_singleton.1 hx)
    have haccess : ∀ conditional, Makes start (Expr.IsOperand Q) (do
        let access ← memberOf e conditional
        trailersWithin g steps (← genericCall g access)) := by
      intro conditional
      have hmember : (memberOf e conditional).Makes start (Expr.IsOperand Q) := by
        have haccess : ∀ name s,
            Makes start (Expr.IsOperand Q) (Pure.pure (.member e name conditional s)) :=
          fun _ _ => makes_pure
            (hPQ.operand rfl (List.forall_mem_singleton.2 he.1) (List.forall_mem_nil _))
        unfold memberOf
        infer_instance
      refine hmember.bind_ahead (fun _ => inferInstance) ?_
      intro access haccess
      have hcalled := genericCall_makes hPQ hg (List.forall_mem_singleton.1 haccess)
      exact hcalled.bind_ahead (fun _ => inferInstance) hmore
    have hcall : Makes start (Expr.IsOperand Q) (do
        trailersWithin g steps (← callOf g e [])) :=
      (callOf_makes hPQ hg he.1 []).bind_ahead (fun _ => inferInstance) hmore
    have hindex : Makes start (Expr.IsOperand Q) (do
        trailersWithin g steps (← indexOf g e)) := by
      have hindexed : (indexOf g e).Makes start (Expr.IsOperand Q) := by
        unfold indexOf
        have hlist := commaList_argument_collects hg.assignment false
        refine hlist.bind_ahead (fun _ => inferInstance) ?_
        intro arguments harguments
        apply Forward.bind_collects inferInstance
        intro close
        exact makes_pure (hPQ.operand rfl (List.forall_mem_singleton.2 he.1) harguments)
      exact hindexed.bind_ahead (fun _ => inferInstance) hmore
    have hunary : ∀ op s,
        (trailersWithin g steps (.unary op e s)).Makes start (Expr.IsOperand Q) :=
      fun _ _ => ih (hPQ.operand rfl (List.forall_mem_singleton.2 he.1) (List.forall_mem_nil _))
    have hsame := ih he
    have hdone : Makes start (Expr.IsOperand Q) (Pure.pure e) := makes_pure he
    unfold trailersWithin
    infer_instance

omit [Grammar.Forward g] in
theorem castExpression_makes (hPQ : Expr.Layers start P Q) (hg : g.Makes start P) :
    (castExpression g).Makes start (Expr.IsOperand Q) := by
  have hcast : ∀ (s : Span) (type : String), Makes start (Expr.IsOperand Q) (do
      let operand ← g.unary
      return .cast type operand (s.cover operand.span)) := by
    intro s type
    refine hg.unary.bind_ahead (fun _ => inferInstance) ?_
    intro operand hoperand
    have hoperand := hPQ.mono (List.forall_mem_singleton.1 hoperand).1
    exact makes_pure
      (hPQ.operand rfl (List.forall_mem_singleton.2 hoperand) (List.forall_mem_nil _))
  unfold castExpression
  infer_instance

theorem unaryOf_makes (hPQ : Expr.Layers start P Q) (hg : g.Makes start P) :
    (unaryOf g).Makes start (Expr.IsOperand Q) := by
  have hprimary : Makes start (Expr.IsOperand Q) (do trailers g (← primary g)) := by
    refine (primary_makes hPQ hg).bind_ahead (fun _ => inferInstance) ?_
    intro e he
    exact collects_bounded fun steps =>
      trailersWithin_makes hPQ hg steps (List.forall_mem_singleton.1 he)
  unfold unaryOf
  apply Forward.bind_collects inferInstance
  intro t
  apply Forward.bind_collects inferInstance
  intro next
  split
  · rename_i op _
    apply Forward.bind_collects inferInstance
    intro _
    refine hg.unary.bind_ahead (fun _ => inferInstance) ?_
    intro operand hoperand
    have hoperand := hPQ.mono (List.forall_mem_singleton.1 hoperand).1
    exact makes_pure
      (hPQ.operand rfl (List.forall_mem_singleton.2 hoperand) (List.forall_mem_nil _))
  · split
    · -- what is no cast is read again as a primary expression
      refine (castExpression_makes hPQ hg).attempt.bind_ahead ?_ ?_
      · intro cast?
        cases cast? <;> infer_instance
      intro cast? hcast
      cases cast? with
      | some cast => exact makes_pure (List.forall_mem_singleton.1 hcast)
      | none => exact hprimary
    · exact hprimary

/-! ## Operators between operands -/

theorem typePattern_makes (hPQ : Expr.Layers start P Q) (hg : g.Makes start P) :
    (typePattern g).Makes start (Expr.IsOperand Q) := by
  have hprimary := primary_makes hPQ hg
  have htype : ∀ type s, Makes start (Expr.IsOperand Q) (Pure.pure (.typeName type s)) :=
    fun _ _ => makes_leaf hPQ rfl rfl
  unfold typePattern
  infer_instance

/-- Operands stop in front of what binds less tightly than asked for, and what joins them
    binds as tightly as asked for. -/
theorem operands_makes (hPQ : Expr.Layers start P Q) (hg : g.Makes start P) {least : Nat}
    {c d : Cursor} {n m : Nesting} {e : Expr} (hstart : start.Reaches c)
    (h : operands g least c n = .ok e d m) :
    d.Below least ∧ Q e ∧ ∀ op ∈ e.operator?, least ≤ op.precedence := by
  have hunary : g.unary.Makes start (Expr.IsOperand Q) :=
    hg.unary.weaken fun h => ⟨hPQ.mono h.1, h.2⟩
  have hjoin : ∀ {op left right span}, (Expr.binary op left right span).Grouped → Q left →
      Q right → Q (.binary op left right span) := by
    intro op left right span hgrouped hleft hright
    refine hPQ.node hgrouped ?_ (List.forall_mem_nil _)
    exact List.forall_mem_cons.2 ⟨hleft, List.forall_mem_singleton.2 hright⟩
  exact (operands_joins hunary (typePattern_makes hPQ hg) hjoin hstart h).2

theorem conditional_makes (hPQ : Expr.Layers start P Q) (hg : g.Makes start P) :
    (conditional g).Makes start Q := by
  have hoperands : (operands g 1).Makes start Q :=
    ⟨fun h => ⟨Forward.reaches h,
      List.forall_mem_singleton.2 fun hstart => (operands_makes hPQ hg hstart h).2.1⟩⟩
  unfold conditional
  refine hoperands.bind_ahead (fun _ => inferInstance) ?_
  intro condition hcondition
  have hcondition := List.forall_mem_singleton.1 hcondition
  have hchoice : Makes start Q (do
      let whenTrue ← g.assignment
      let _ ← expect .colon
      let whenFalse ← g.assignment
      return .conditional condition whenTrue whenFalse
        (condition.span.cover whenFalse.span)) := by
    refine hg.assignment.bind_ahead (fun _ => inferInstance) ?_
    intro whenTrue htrue
    apply Forward.bind_collects inferInstance
    intro _
    refine hg.assignment.bind_ahead (fun _ => inferInstance) ?_
    intro whenFalse hfalse
    have htrue := hPQ.mono (List.forall_mem_singleton.1 htrue)
    have hfalse := hPQ.mono (List.forall_mem_singleton.1 hfalse)
    refine makes_pure (hPQ.node trivial ?_ (List.forall_mem_nil _))
    exact List.forall_mem_cons.2 ⟨hcondition,
      List.forall_mem_cons.2 ⟨htrue, List.forall_mem_singleton.2 hfalse⟩⟩
  have hdone : Makes start Q (Pure.pure condition) := makes_pure hcondition
  infer_instance

/-! ## Lambdas and assignments -/

omit [Grammar.Forward g] in
theorem lambda_collects (hPQ : Expr.Layers start P Q) (hg : g.Makes start P) :
    Collects (Cursor.Finds (start.Ahead Q)) Option.toList (lambda? g) := by
  have hnone : Collects (Cursor.Finds (start.Ahead Q)) Option.toList
      (Pure.pure (none : Option Expr)) := collects_pure rfl
  have hblock : ∀ parameters body s, Collects (Cursor.Finds (start.Ahead Q)) Option.toList
      (Pure.pure (some (Expr.blockLambda parameters body s))) := fun _ _ _ =>
    collects_of_all (List.forall_mem_singleton.2
      (hPQ.node trivial (List.forall_mem_nil _) (List.forall_mem_nil _)))
  have hbody : ∀ (parameters : List String) (s : Span),
      Collects (Cursor.Finds (start.Ahead Q)) Option.toList (do
        let body ← g.assignment
        return some (Expr.lambda parameters body (s.cover (← last)))) := by
    intro parameters s
    refine hg.assignment.bind_ahead (fun _ => inferInstance) ?_
    intro body hbody
    apply Forward.bind_collects inferInstance
    intro _
    have hbody := hPQ.mono (List.forall_mem_singleton.1 hbody)
    exact collects_of_all (List.forall_mem_singleton.2
      (hPQ.node trivial (List.forall_mem_singleton.2 hbody) (List.forall_mem_nil _)))
  unfold lambda?
  apply Forward.bind_collects inferInstance
  intro s
  apply Forward.bind_collects inferInstance
  intro parameters?
  cases parameters? with
  | none => exact hnone
  | some parameters => infer_instance

theorem assignmentOf_makes (hPQ : Expr.Layers start P Q) (hg : g.Makes start P) :
    (assignmentOf g).Makes start Q where
  collects {c d n m e} h := by
    refine ⟨Forward.reaches h, List.forall_mem_singleton.2 ?_⟩
    intro hstart
    obtain ⟨found, c₁, _, hlambda, h⟩ := bind_eq_ok h
    obtain ⟨hreach, hfound⟩ := (lambda_collects hPQ hg).collects hlambda
    cases found with
    | some lambda =>
      cases h
      exact List.forall_mem_singleton.1 hfound hstart
    | none =>
      have hstart := hstart.trans hreach
      obtain ⟨target, c₂, _, hconditional, h⟩ := bind_eq_ok h
      obtain ⟨hreach, hfound⟩ := (conditional_makes hPQ hg).collects hconditional
      have htarget := List.forall_mem_singleton.1 hfound hstart
      obtain ⟨_, _, _, hpeek, h⟩ := bind_eq_ok h
      cases hpeek
      extract_lets op? at h
      cases hop : op? with
      | none =>
        rw [hop] at h
        cases h
        exact htarget
      | some op =>
        rw [hop] at h
        obtain ⟨_, c₃, _, hadvance, h⟩ := bind_eq_ok h
        obtain ⟨value, _, _, hvalue, h⟩ := bind_eq_ok h
        cases h
        have hstart := (hstart.trans hreach).trans (Forward.reaches hadvance)
        obtain ⟨-, hfound⟩ := hg.assignment.collects hvalue
        have hvalue := hPQ.mono (List.forall_mem_singleton.1 hfound hstart)
        refine hPQ.node trivial ?_ (List.forall_mem_nil _)
        exact List.forall_mem_cons.2 ⟨htarget, List.forall_mem_singleton.2 hvalue⟩

end Layers

end Parse

/-- What holds of an expression because it holds of its parts, one level after the other,
    holds of every expression that is read. -/
theorem Grammar.makes_within {start : Cursor} {P : Nat → Expr → Prop}
    (h : ∀ levels, Expr.Layers start (P levels) (P (levels + 1))) (levels : Nat) :
    (Grammar.within levels).Makes start (P levels) := by
  induction levels with
  | zero =>
    -- nothing is read without levels
    constructor
    all_goals
      constructor
      intro c d n m e h
      cases h
  | succ levels ih =>
    exact {
      assignment := Parse.assignmentOf_makes (h levels) ih
      unary := Parse.unaryOf_makes (h levels) ih }

/-- The same for all fragments of a file. -/
theorem FragmentInvariant.of_layers {start : Cursor} {P : Nat → Fragment → Prop}
    (h : ∀ levels, Expr.Layers start (fun e => P levels (.expression e))
      fun e => P (levels + 1) (.expression e))
    (hunparsed : ∀ levels span, P levels (.expression (.unparsed span)))
    (hstatement : ∀ {levels s}, (∀ x ∈ s.parts, P levels x) → P (levels + 1) (.statement s))
    (hmalformed : ∀ {levels fault span}, P levels (.statement (.malformed fault span))) :
    FragmentInvariant start P := by
  have hexpression : ∀ {levels : Nat} {c d : Cursor} {n m : Nesting} {e : Expr},
      start.Reaches c → (Grammar.within levels).assignment c n = .ok e d m →
        P levels (.expression e) := by
    intro levels c d n m e hstart hread
    obtain ⟨-, hfound⟩ :=
      (Grammar.makes_within (P := fun levels e => P levels (.expression e)) h
        levels).assignment.collects hread
    exact List.forall_mem_singleton.1 hfound hstart
  refine ⟨hexpression, ?_, hstatement, hmalformed⟩
  intro levels c d n m e hstart hread
  obtain ⟨arrow, c', _, harrow, hread⟩ := Parse.bind_eq_ok hread
  rcases Parse.expressionBody_eq hread with ⟨_, hread⟩ | ⟨span, rfl⟩
  · exact hexpression (hstart.trans (Parse.Forward.reaches harrow)) hread
  · exact hunparsed levels span

end GatewayPolicy
