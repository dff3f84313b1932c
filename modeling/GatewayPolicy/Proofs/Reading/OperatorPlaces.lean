import GatewayPolicy.Proofs.Reading.ExpressionPlaces
import GatewayPolicy.Proofs.Reading.Precedence

/-! # Places of operators

  Operators, conditional expressions, lambdas and assignments reach to the end of their last
  part, or to the token taken last. Whether an exclamation mark at the end is part of them
  depends on this alone.

  - `Parse.operandsWithin_places` is the invariant of the loop over binary operators.
  - `Grammar.places_within` is the result for the whole grammar, by induction on the levels.
-/

namespace GatewayPolicy

namespace Parse

variable {ts : List Token} {stop : Span} {g : Grammar} {c d : Cursor} {n m : Nesting} {e : Expr}
  {i a : Nat}

/-! ## Operators in front of an operand -/

/-- An operand with something in front of it ends where the operand ends. -/
theorem operand_behind {t : Token} {j : Nat} {operand : Expr}
    (ht : ts[i]? = some t) (ha : i < a) (hoperand : operand.OperandBetween ts a j)
    (hspan : e.span = t.span.cover operand.span) (hparts : e.parts = [operand])
    (hkeeps : e.keepsMark = false) : e.OperandBetween ts i j := by
  obtain ⟨k, hlaid, hends, -⟩ := hoperand
  refine ⟨k, hlaid.upto (JoinedFrom.token ht) ha hspan ?_, hends, hkeeps⟩
  rw [hparts]
  exact hlaid.within ha.le (Nat.lt_succ_self k)

theorem castExpression_places (hg : g.Places ts stop)
    (hc : c.StandsAt ts stop i) (h : castExpression g c n = .ok e d m) :
    ∃ j, d.StandsAt ts stop j ∧ e.OperandBetween ts i j := by
  obtain ⟨start, c₁, _, hopen, h⟩ := bind_eq_ok h
  obtain ⟨hstart, hc₁, -⟩ := hc.expect hopen
  obtain ⟨type, c₂, _, htype, h⟩ := bind_eq_ok h
  obtain ⟨a₂, ha₂, hc₂⟩ := hc₁.forward htype
  obtain ⟨_, c₃, _, hclose, h⟩ := bind_eq_ok h
  obtain ⟨-, hc₃, -⟩ := hc₂.expect hclose
  obtain ⟨_, _, _, hpeek, h⟩ := bind_eq_ok h
  cases hpeek
  split at h
  · obtain ⟨operand, c₄, _, hread, h⟩ := bind_eq_ok h
    cases h
    obtain ⟨j, hd, hoperand⟩ := hg.unary hc₃ hread
    exact ⟨j, hd, operand_behind hstart (by omega) hoperand rfl rfl rfl⟩
  · cases h

/-- The end of the file is no operator. -/
theorem not_eof_of_leadingOperator {t next : Token} {op : UnaryOp}
    (h : leadingOperator? t next = some op) : t.isEof = false := by
  by_contra heof
  have hkind : t.kind = .eof := by simpa [Token.isEof] using heof
  simp [leadingOperator?, Token.isWord, hkind] at h

theorem unaryOf_places [Grammar.Forward g] (hg : g.Places ts stop)
    (hc : c.StandsAt ts stop i)
    (h : unaryOf g c n = .ok e d m) :
    ∃ j, d.StandsAt ts stop j ∧ e.OperandBetween ts i j := by
  -- what has no operator in front is a primary expression with its trailers
  have hprimary : ∀ n', (do trailers g (← primary g)) c n' = .ok e d m →
      ∃ j, d.StandsAt ts stop j ∧ e.OperandBetween ts i j := by
    intro n' h
    obtain ⟨target, c₁, _, htarget, h⟩ := bind_eq_ok h
    obtain ⟨a, hc₁, hclosed⟩ := primary_places hg hc htarget
    exact trailersWithin_places hg (trailed_of_closed hclosed) hc₁ h
  obtain ⟨_, _, _, hpeek, h⟩ := bind_eq_ok h
  cases hpeek
  obtain ⟨_, _, _, hahead, h⟩ := bind_eq_ok h
  cases hahead
  cases hop : leadingOperator? c.peek (c.peekAt 1) with
  | some op =>
    rw [hop] at h
    obtain ⟨ht, hnext⟩ := hc.next (not_eof_of_leadingOperator hop)
    obtain ⟨_, _, _, hadvance, h⟩ := bind_eq_ok h
    cases hadvance
    obtain ⟨operand, c₁, _, hread, h⟩ := bind_eq_ok h
    cases h
    obtain ⟨j, hd, hoperand⟩ := hg.unary hnext hread
    exact ⟨j, hd, operand_behind ht (Nat.lt_succ_self i) hoperand rfl rfl rfl⟩
  | none =>
    rw [hop] at h
    dsimp only at h
    split at h
    · obtain ⟨cast?, c₁, _, hcast, h⟩ := bind_eq_ok h
      unfold attempt at hcast
      split at hcast
      · rename_i hread
        cases hcast
        cases h
        exact castExpression_places hg hc hread
      · cases hcast
        exact hprimary _ h
    · exact hprimary _ h

/-! ## Binary operators -/

/-- The place of a group reaches from the next token to the one taken last. -/
theorem skipGroup_span {span : Span} (h : skipGroup c n = .ok span d m) :
    span = c.peek.span.cover d.last := by
  unfold skipGroup at h
  dsimp only at h
  split at h
  · cases h
  · split at h
    · cases h
      rfl
    · cases h

/-- Two operands and what stands between them are laid over all their tokens. -/
theorem operands_joined {op : BinaryOp} {left right : Expr}
    {i' j : Nat} (hleft : left.OperandBetween ts i a) (ha : a ≤ i')
    (hright : right.OperandBetween ts i' j) :
    (Expr.binary op left right (left.span.cover right.span)).OperandBetween ts i j := by
  obtain ⟨k, hlaid, hends, -⟩ := hleft
  obtain ⟨k', hlaid', hends', -⟩ := hright
  have hk : k < i' := hends.lt.trans_le ha
  have hparts : Expr.LaidWithin ts i (k' + 1) [left, right] :=
    .cons (Nat.le_refl _) hlaid (hlaid'.within hk (Nat.lt_succ_self k'))
  exact ⟨k', hlaid'.upto hlaid.span hk rfl hparts, hends', rfl⟩

/-- A pattern is laid over all tokens that it takes, but for a negation in front. -/
theorem typePattern_places [Grammar.Forward g] (hg : g.Places ts stop)
    (hc : c.StandsAt ts stop a)
    (h : typePattern g c n = .ok e d m) :
    ∃ i j, a ≤ i ∧ d.StandsAt ts stop j ∧ e.ClosedBetween ts i j := by
  obtain ⟨_, _, _, hhere, h⟩ := bind_eq_ok h
  cases hhere
  obtain ⟨_, c₁, _, hnot, h⟩ := bind_eq_ok h
  have hreach : c.Reaches c₁ := Forward.reaches hnot
  obtain ⟨a₁, ha₁, hc₁⟩ := hc.forward hnot
  obtain ⟨_, _, _, hpeek, h⟩ := bind_eq_ok h
  cases hpeek
  split at h
  · obtain ⟨j, hd, hclosed⟩ := primary_places hg hc₁ h
    exact ⟨a₁, j, ha₁, hd, hclosed⟩
  split at h
  · -- braces, kept by their place
    obtain ⟨braces, c₂, _, hbraces, h⟩ := bind_eq_ok h
    cases h
    have hspan := skipGroup_span hbraces
    have hplain := skipGroup_plain hbraces
    have hpasses := hreach.trans_passes (Strict.passes hbraces)
    obtain ⟨j, hj, hd, hmark⟩ := hc₁.passesPlain hplain
    have hinner := hd.stretch (stretch_peek hc₁ (Strict.passes hbraces)) hj
    rw [← hspan] at hinner
    have houter := (stretch_peek hc hpasses).upto hinner ha₁ (ha₁.trans hj)
    exact ⟨a, j + 1, Nat.le_refl _, hd, j, rfl, .intro houter (.nil (by omega)), hmark, rfl⟩
  · -- a type, and a name behind it
    obtain ⟨type, c₂, _, htype, h⟩ := bind_eq_ok h
    have hplain := typeName_plain htype
    obtain ⟨_, _, _, hpeek, h⟩ := bind_eq_ok h
    cases hpeek
    have hdone : c₁.PassesPlain d ∧ e.KeptFrom c.peek.span d ∧ e.parts = [] := by
      split at h
      · rename_i hname
        obtain ⟨_, _, _, hadvance, h⟩ := bind_eq_ok h
        cases hadvance
        cases h
        have hidentifier := (Bool.and_eq_true_iff.1 hname).1
        exact ⟨hplain.trans (.inr (Cursor.passesPlain_identifier hidentifier)), ⟨rfl, rfl⟩, rfl⟩
      · cases h
        exact ⟨hplain, ⟨rfl, rfl⟩, rfl⟩
    obtain ⟨hplain, hkept, hparts⟩ := hdone
    have hstart := stretch_peek hc (hreach.trans_plain hplain).passes
    obtain ⟨j, hd, hclosed⟩ := closed_of_kept_leaf hstart ha₁ hc₁ hplain hkept hparts
    exact ⟨a, j, Nat.le_refl _, hd, hclosed⟩

/-- The loop over binary operators keeps operands laid over what was taken. -/
theorem operandsWithin_places [Grammar.Forward g] (hg : g.Places ts stop)
    {steps least : Nat} {left : Expr}
    (hleft : left.OperandBetween ts i a) (hc : c.StandsAt ts stop a)
    (h : operandsWithin g steps least left c n = .ok e d m) :
    ∃ j, d.StandsAt ts stop j ∧ e.OperandBetween ts i j := by
  -- a right operand is read by the same loop, so the left one and its start are general
  induction steps generalizing least left i a c n e d m with
  | zero =>
    cases h
    exact ⟨a, hc, hleft⟩
  | succ steps ih =>
    rcases operandsWithin_turn h with ⟨rfl, rfl, -⟩ |
      ⟨op, width, right, c', c'', n', n'', -, -, ⟨taken, -, htakes⟩, hread, h⟩
    · exact ⟨a, hc, hleft⟩
    have hc' := hc.takes htakes
    have hright : ∃ i' j, a + taken.length ≤ i' ∧ c''.StandsAt ts stop j ∧
        right.OperandBetween ts i' j := by
      unfold rightOperand at hread
      split at hread
      · obtain ⟨i', j, hi', hc'', hclosed⟩ := typePattern_places hg hc' hread
        exact ⟨i', j, hi', hc'', hclosed.operand⟩
      · obtain ⟨first, c₁, _, hfirst, hread⟩ := bind_eq_ok hread
        obtain ⟨a₁, hc₁, hoperand⟩ := hg.unary hc' hfirst
        obtain ⟨j, hc'', hoperand⟩ := ih hoperand hc₁ hread
        exact ⟨_, j, Nat.le_refl _, hc'', hoperand⟩
    obtain ⟨i', j, hi', hc'', hoperand⟩ := hright
    have hbehind := (Nat.le_add_right a _).trans hi'
    exact ih (operands_joined hleft hbehind hoperand) hc'' h

/-! ## Conditional expressions -/

/-- An expression that ends with a part keeps a mark at the end if the part does. -/
theorem read_behind {s : Span} {k j : Nat} {part : Expr}
    (hs : JoinedFrom ts i k s) (hk : k < a) (hpart : part.ReadBetween ts a j)
    (hspan : e.span = s.cover part.span) (hkeeps : e.keepsMark = part.keepsMark)
    (hparts : ∃ before, e.parts = before ++ [part] ∧ Expr.LaidWithin ts i a before) :
    e.ReadBetween ts i j := by
  obtain ⟨k', hlaid, hends⟩ := hpart
  obtain ⟨before, hparts, hbefore⟩ := hparts
  have hwithin : Expr.LaidWithin ts i (k' + 1) e.parts := by
    rw [hparts]
    exact hbefore.append (hlaid.within (Nat.le_refl _) (Nat.lt_succ_self k'))
  refine ⟨k', hlaid.upto hs hk hspan hwithin, ?_⟩
  rw [hkeeps]
  exact hends

theorem conditional_places [Grammar.Forward g] (hg : g.Places ts stop)
    (hc : c.StandsAt ts stop i)
    (h : conditional g c n = .ok e d m) :
    ∃ j, d.StandsAt ts stop j ∧ e.ReadBetween ts i j := by
  obtain ⟨condition, c₁, _, hcondition, h⟩ := bind_eq_ok h
  obtain ⟨first, c', _, hfirst, hcondition⟩ := bind_eq_ok hcondition
  obtain ⟨a, hc', hoperand⟩ := hg.unary hc hfirst
  obtain ⟨a₁, hc₁, hoperand⟩ := operandsWithin_places hg hoperand hc' hcondition
  obtain ⟨question, c₂, _, heat, hrest⟩ := bind_eq_ok h
  rcases eat_eq_ok heat with ⟨rfl, -⟩ | ⟨rfl, rfl⟩
  · obtain ⟨a₂, ha₂, hc₂⟩ := hc₁.forward heat
    obtain ⟨whenTrue, c₃, _, htrue, h⟩ := bind_eq_ok hrest
    obtain ⟨a₃, hc₃, hfirst⟩ := hg.assignment hc₂ htrue
    obtain ⟨colon, c₄, _, hcolon, h⟩ := bind_eq_ok h
    obtain ⟨-, hc₄, -⟩ := hc₃.expect hcolon
    obtain ⟨whenFalse, c₅, _, hfalse, h⟩ := bind_eq_ok h
    obtain ⟨j, hd, hsecond⟩ := hg.assignment hc₄ hfalse
    cases h
    obtain ⟨k, hlaid, hends, -⟩ := hoperand
    have hbefore : Expr.LaidWithin ts i (a₃ + 1) [condition, whenTrue] :=
      .cons (Nat.le_refl _) hlaid
        ((hfirst.within (hends.lt.trans_le ha₂)).mono (Nat.le_refl _) (Nat.le_succ a₃))
    have hk : k < a₃ + 1 := by
      have hle := (hfirst.within (Nat.le_refl _)).le
      have hlt := hends.lt
      omega
    refine ⟨j, hd, read_behind hlaid.span hk hsecond rfl rfl ?_⟩
    exact ⟨[condition, whenTrue], rfl, hbefore⟩
  · cases hrest
    exact ⟨a₁, hc₁, hoperand.read⟩

/-! ## Lambdas and assignments -/

/-- A lambda is laid over all tokens that it takes. -/
theorem lambda_places (hg : g.Places ts stop)
    (hc : c.StandsAt ts stop i) (h : lambda? g c n = .ok (some e) d m) :
    ∃ j, d.StandsAt ts stop j ∧ e.ReadBetween ts i j := by
  obtain ⟨_, _, _, hhere, h⟩ := bind_eq_ok h
  cases hhere
  obtain ⟨parameters?, c₁, _, hparameters, h⟩ := bind_eq_ok h
  have hreach : c.Reaches c₁ := Forward.reaches hparameters
  obtain ⟨a₁, ha₁, hc₁⟩ := hc.forward hparameters
  cases parameters? with
  | none => cases h
  | some parameters =>
    obtain ⟨arrow, c₂, _, harrow, h⟩ := bind_eq_ok h
    have hstart := stretch_peek hc (hreach.trans_passes (Strict.passes harrow))
    obtain ⟨-, hc₂, -⟩ := hc₁.expect harrow
    obtain ⟨_, _, _, hat, h⟩ := bind_eq_ok h
    cases hat
    split at h
    · obtain ⟨body, c₃, _, hbody, h⟩ := bind_eq_ok h
      cases h
      have hkept : (Expr.blockLambda parameters body (c.peek.span.cover d.last)).KeptFrom
          c.peek.span d := ⟨rfl, rfl⟩
      obtain ⟨j, hd, hclosed⟩ :=
        closed_of_kept_leaf hstart (by omega) hc₂ (skipGroup_plain hbody) hkept rfl
      exact ⟨j, hd, hclosed.operand.read⟩
    · -- the lambda reaches to the token taken last, so it keeps a mark that its body drops
      obtain ⟨body, c₃, _, hbody, h⟩ := bind_eq_ok h
      cases h
      obtain ⟨j, hd, hread⟩ := hg.assignment hc₂ hbody
      have hwithin : Expr.LaidWithin ts i j [body] := hread.within (by omega)
      have hle := (hread.within (Nat.le_refl _)).le
      obtain ⟨k, rfl⟩ : ∃ k, j = k + 1 := Nat.exists_eq_add_one.2 (by omega)
      exact ⟨k + 1, hd, k, .intro (hd.stretch hstart (by omega)) hwithin, rfl⟩

theorem lambda_none (h : lambda? g c n = .ok none d m) : d = c := by
  obtain ⟨_, _, _, hhere, h⟩ := bind_eq_ok h
  cases hhere
  obtain ⟨parameters?, c₁, _, hparameters, h⟩ := bind_eq_ok h
  cases parameters? with
  | none =>
    cases h
    exact (lambdaParameters_reaches hparameters).2 rfl
  | some parameters =>
    obtain ⟨arrow, c₂, _, harrow, h⟩ := bind_eq_ok h
    obtain ⟨_, _, _, hat, h⟩ := bind_eq_ok h
    split at h
    all_goals
      obtain ⟨body, c₃, _, hbody, h⟩ := bind_eq_ok h
      cases h

theorem assignmentOf_places [Grammar.Forward g] (hg : g.Places ts stop)
    (hc : c.StandsAt ts stop i)
    (h : assignmentOf g c n = .ok e d m) :
    ∃ j, d.StandsAt ts stop j ∧ e.ReadBetween ts i j := by
  obtain ⟨found, c₁, _, hlambda, hrest⟩ := bind_eq_ok h
  cases found with
  | some lambda =>
    cases hrest
    exact lambda_places hg hc hlambda
  | none =>
    obtain rfl := lambda_none hlambda
    obtain ⟨target, c₂, _, htarget, h⟩ := bind_eq_ok hrest
    obtain ⟨a, hc₂, hread⟩ := conditional_places hg hc htarget
    obtain ⟨_, _, _, hpeek, h⟩ := bind_eq_ok h
    cases hpeek
    extract_lets op? at h
    cases hop : op? with
    | none =>
      rw [hop] at h
      cases h
      exact ⟨a, hc₂, hread⟩
    | some op =>
      have hinside : c₂.peek.isEof = false := by
        by_contra heof
        have hkind : c₂.peek.kind = .eof := by simpa [Token.isEof] using heof
        simp [op?, hkind] at hop
      rw [hop] at h
      obtain ⟨-, hnext⟩ := hc₂.next hinside
      obtain ⟨_, _, _, hadvance, h⟩ := bind_eq_ok h
      cases hadvance
      obtain ⟨value, c₃, _, hvalue, h⟩ := bind_eq_ok h
      cases h
      obtain ⟨j, hd, hvalue⟩ := hg.assignment hnext hvalue
      obtain ⟨k, hk, hlaid⟩ := hread.laid
      have hbefore : Expr.LaidWithin ts i (a + 1) [target] :=
        hlaid.within (Nat.le_refl _) (by omega)
      refine ⟨j, hd, read_behind hlaid.span (by omega) hvalue rfl rfl ?_⟩
      exact ⟨[target], rfl, hbefore⟩

end Parse

/-- Expressions are laid over the tokens that they take, however deep they nest. -/
theorem Grammar.places_within (ts : List Token) (stop : Span) (levels : Nat) :
    (Grammar.within levels).Places ts stop := by
  induction levels with
  | zero =>
    constructor
    all_goals
      intro c d n m e i _ h
      cases h
  | succ levels ih =>
    exact { assignment := Parse.assignmentOf_places ih, unary := Parse.unaryOf_places ih }

end GatewayPolicy
