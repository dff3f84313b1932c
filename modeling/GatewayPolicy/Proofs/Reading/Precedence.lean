import GatewayPolicy.Proofs.Reading.Collecting
import GatewayPolicy.Proofs.Reading.ExpressionLoops

/-! # How operators group

  Binary operators are read by climbing. The loop goes on with an operator only if it binds
  at least as tightly as asked for, and the right operand is read by the same loop, which
  asks for what the operator allows on its right. So each operand binds more tightly than the
  operator that joins it, or as tightly on the side on which the operator groups. A test for
  a type has a type on its right and not an operand, so nothing is said about a test on the
  left of an operator.

  - `Expr.Grouped` is the law for one expression.
  - `Expr.Settled` is the invariant of the loop: the next operator cannot be one that belongs
    into the right operand of the expression read so far.
  - `Parse.operandsWithin_turn` says what one turn of the loop does, and
    `Parse.operandsWithin_joins` what all turns do.
-/

namespace GatewayPolicy

/-! ## The law -/

/-- The operator of an expression that joins two operands. -/
def Expr.operator? : Expr → Option BinaryOp
  | .binary op _ _ _ => some op
  | _ => none

namespace BinaryOp

/-- Whether an operator may have another one in its left operand. -/
def takesLeft (op inner : BinaryOp) : Prop :=
  if op = coalesce then op.precedence < inner.precedence else op.precedence ≤ inner.precedence

/-- Whether an operator may have another one in its right operand. -/
def takesRight (op inner : BinaryOp) : Prop :=
  if op = coalesce then op.precedence ≤ inner.precedence else op.precedence < inner.precedence

theorem rightMin_of_ne {op : BinaryOp} (h : op ≠ coalesce) : op.rightMin = op.precedence + 1 := by
  cases op with
  | coalesce => exact absurd rfl h
  | _ => rfl

theorem precedence_pos (op : BinaryOp) : 0 < op.precedence := by
  cases op <;> decide

theorem one_lt_precedence {op : BinaryOp} (h : op ≠ coalesce) : 1 < op.precedence := by
  cases op with
  | coalesce => exact absurd rfl h
  | _ => decide

theorem takesRight_iff {op inner : BinaryOp} :
    op.takesRight inner ↔ op.rightMin ≤ inner.precedence := by
  unfold takesRight
  split
  · rename_i h
    subst h
    rfl
  · rename_i h
    rw [rightMin_of_ne h]
    exact Iff.rfl

/-- An operator that cannot stand in the right operand of another one takes that one as its
    left operand. -/
theorem takesLeft_of_lt {op inner : BinaryOp} (h : op.precedence < inner.rightMin) :
    op.takesLeft inner := by
  have hpos := op.precedence_pos
  by_cases hinner : inner = coalesce
  · -- nothing binds less tightly than this one
    subst hinner
    have hone : rightMin coalesce = 1 := rfl
    omega
  · rw [rightMin_of_ne hinner] at h
    unfold takesLeft
    split
    · rename_i hop
      subst hop
      exact one_lt_precedence hinner
    · omega

end BinaryOp

/-- The operands of an operator bind as tightly as it needs. -/
def Expr.Grouped : Expr → Prop
  | .binary op left right _ =>
    (∀ inner ∈ left.operator?, inner.testsType = false → op.takesLeft inner) ∧
      ∀ inner ∈ right.operator?, op.takesRight inner
  | _ => True

theorem Expr.grouped_of_operator {e : Expr} (h : e.operator? = none) : e.Grouped := by
  unfold Grouped
  split
  · cases h
  · trivial

/-- There is nothing to ask of the operator of an operand. -/
theorem Expr.forall_operator {e : Expr} {p : BinaryOp → Prop} (h : e.operator? = none) :
    ∀ op ∈ e.operator?, p op := by
  rw [h]
  nofun

/-! ## The loop -/

/-- A parse of expressions that have a property if they are read behind `start`. -/
abbrev Parse.Makes (start : Cursor) (P : Expr → Prop) (p : Parse Expr) : Prop :=
  p.Collects (Cursor.Finds (start.Ahead P)) fun e => [e]

/-- An expression with a property that is no two operands joined by an operator. -/
def Expr.IsOperand (P : Expr → Prop) (e : Expr) : Prop := P e ∧ e.operator? = none

/-- No operator that binds at least as tightly as `least` is next. -/
def Cursor.Below (least : Nat) (c : Cursor) : Prop :=
  ∀ op width, Parse.binaryOperator? c.peek (c.peekAt 1) = some (op, width) → op.precedence < least

/-- The next operator does not belong into the right operand of an expression. -/
def Expr.Settled (c : Cursor) (e : Expr) : Prop :=
  ∀ op ∈ e.operator?, op.testsType = false → c.Below op.rightMin

theorem Cursor.Reaches.length_le {c d : Cursor} (h : c.Reaches d) :
    d.rest.length ≤ c.rest.length := by
  obtain ⟨taken, htakes⟩ := h
  rw [htakes.rest, List.length_append]
  omega

namespace Parse

variable {g : Grammar} {c d : Cursor} {n m : Nesting} {e left : Expr} {steps least : Nat}

/-- The right operand of an operator, with so many steps left to read it. -/
def rightOperand (g : Grammar) (steps : Nat) (op : BinaryOp) : Parse Expr := do
  if op.testsType then typePattern g
  else operandsWithin g steps op.rightMin (← g.unary)

/-- The loop stops in front of what binds less tightly, or it takes an operator and its right
    operand and goes on. -/
theorem operandsWithin_turn (h : operandsWithin g (steps + 1) least left c n = .ok e d m) :
    (e = left ∧ d = c ∧ c.Below least) ∨
      ∃ op width right c' c'' n' n'',
        binaryOperator? c.peek (c.peekAt 1) = some (op, width) ∧ least ≤ op.precedence ∧
        c.Passes c' ∧ rightOperand g steps op c' n' = .ok right c'' n'' ∧
        operandsWithin g steps least (.binary op left right (left.span.cover right.span)) c'' n'' =
          .ok e d m := by
  obtain ⟨_, _, _, hpeek, h⟩ := bind_eq_ok h
  cases hpeek
  obtain ⟨_, _, _, hahead, h⟩ := bind_eq_ok h
  cases hahead
  cases hop : binaryOperator? c.peek (c.peekAt 1) with
  | none =>
    rw [hop] at h
    cases h
    refine .inl ⟨rfl, rfl, ?_⟩
    intro op width hop'
    rw [hop] at hop'
    cases hop'
  | some found =>
    obtain ⟨op, width⟩ := found
    rw [hop] at h
    dsimp only at h
    split at h
    · rename_i hless
      cases h
      refine .inl ⟨rfl, rfl, ?_⟩
      intro op' width' hop'
      rw [hop] at hop'
      cases hop'
      exact hless
    · rename_i hless
      obtain ⟨_, _, _, hadvance, h⟩ := bind_eq_ok h
      cases hadvance
      have hpass := Cursor.passes_next (not_eof_of_binaryOperator hop)
      refine .inr ⟨op, width, ?_⟩
      split at h
      · obtain ⟨_, c', _, hadvance, h⟩ := bind_eq_ok h
        obtain ⟨right, c'', n'', hright, h⟩ := bind_eq_ok h
        exact ⟨right, c', c'', _, n'', rfl, Nat.le_of_not_lt hless,
          hpass.trans_reaches (Forward.reaches hadvance), hright, h⟩
      · obtain ⟨right, c'', n'', hright, h⟩ := bind_eq_ok h
        exact ⟨right, c.next, c'', _, n'', rfl, Nat.le_of_not_lt hless, hpass, hright, h⟩

section Joins

variable {start : Cursor} {P : Expr → Prop}
  (hunary : g.unary.Makes start (Expr.IsOperand P))
  (hpattern : (typePattern g).Makes start (Expr.IsOperand P))
  (hjoin : ∀ {op left right span}, (Expr.binary op left right span).Grouped → P left → P right →
    P (.binary op left right span))

include hunary hpattern hjoin

/-- The loop stops in front of what binds less tightly than asked for; it keeps what every
    grouped operator keeps, and what it adds binds as tightly as asked for. -/
theorem operandsWithin_joins (hstart : start.Reaches c) (hsteps : c.rest.length ≤ steps)
    (hleft : P left) (hsettled : left.Settled c)
    (h : operandsWithin g steps least left c n = .ok e d m) :
    c.Reaches d ∧ d.Below least ∧ P e ∧
      ((∀ op ∈ left.operator?, least ≤ op.precedence) →
        ∀ op ∈ e.operator?, least ≤ op.precedence) := by
  induction steps generalizing least left c n e d m with
  | zero =>
    cases h
    refine ⟨.refl c, ?_, hleft, id⟩
    intro op width hop
    -- there are no tokens left
    have hinside := Cursor.passes_next (not_eof_of_binaryOperator hop)
    have hlength := hinside.length_lt
    omega
  | succ steps ih =>
    rcases operandsWithin_turn h with ⟨rfl, rfl, hbelow⟩ |
      ⟨op, width, right, c', c'', n', n'', hop, hleast, hpass, hright, h⟩
    · exact ⟨.refl d, hbelow, hleft, id⟩
    have hstart' := hstart.trans hpass.reaches
    have hlength := hpass.length_lt
    -- the right operand stops in front of what it may not hold, which is what the left side of
    -- the next operator needs
    have hoperand : c'.Reaches c'' ∧ P right ∧ (op.testsType = false → c''.Below op.rightMin) ∧
        ∀ inner ∈ right.operator?, op.takesRight inner := by
      unfold rightOperand at hright
      split at hright
      · rename_i htest
        obtain ⟨hreach, hfound⟩ := hpattern.collects hright
        obtain ⟨hP, hnone⟩ := List.forall_mem_singleton.1 hfound hstart'
        exact ⟨hreach, hP, fun hno => absurd (htest.symm.trans hno) (by decide),
          Expr.forall_operator hnone⟩
      · obtain ⟨first, c₁, n₁, hfirst, hright⟩ := bind_eq_ok hright
        obtain ⟨hreach, hfound⟩ := hunary.collects hfirst
        obtain ⟨hP, hnone⟩ := List.forall_mem_singleton.1 hfound hstart'
        have hlength' := hreach.length_le
        have hfresh : first.Settled c₁ := Expr.forall_operator hnone
        obtain ⟨hreach', hbelow, hP, hleast'⟩ :=
          ih (hstart'.trans hreach) (by omega) hP hfresh hright
        refine ⟨hreach.trans hreach', hP, fun _ => hbelow, ?_⟩
        intro inner hinner
        exact BinaryOp.takesRight_iff.2 (hleast' (Expr.forall_operator hnone) inner hinner)
    obtain ⟨hreach, hP, hbelow, htakes⟩ := hoperand
    have hgrouped : (Expr.binary op left right (left.span.cover right.span)).Grouped := by
      refine ⟨?_, htakes⟩
      intro inner hinner htest
      exact BinaryOp.takesLeft_of_lt (hsettled inner hinner htest op width hop)
    have hjoined : (Expr.binary op left right (left.span.cover right.span)).Settled c'' := by
      intro inner hinner htest
      obtain rfl := Option.some.inj hinner
      exact hbelow htest
    have hlength' := hreach.length_le
    obtain ⟨hreach', hbelow', hP', hleast'⟩ :=
      ih (hstart'.trans hreach) (by omega) (hjoin hgrouped hleft hP) hjoined h
    refine ⟨(hpass.reaches.trans hreach).trans hreach', hbelow', hP', fun _ => hleast' ?_⟩
    intro inner hinner
    obtain rfl := Option.some.inj hinner
    exact hleast

/-- Operands joined by operators, from the first operand on. -/
theorem operands_joins (hstart : start.Reaches c) (h : operands g least c n = .ok e d m) :
    c.Reaches d ∧ d.Below least ∧ P e ∧ ∀ op ∈ e.operator?, least ≤ op.precedence := by
  obtain ⟨first, c', _, hfirst, h⟩ := bind_eq_ok h
  obtain ⟨hreach, hfound⟩ := hunary.collects hfirst
  obtain ⟨hP, hnone⟩ := List.forall_mem_singleton.1 hfound hstart
  have hfresh : first.Settled c' := Expr.forall_operator hnone
  obtain ⟨hreach', hbelow, hP, hleast⟩ := operandsWithin_joins hunary hpattern hjoin
    (hstart.trans hreach) (Nat.le_refl _) hP hfresh h
  exact ⟨hreach.trans hreach', hbelow, hP, hleast (Expr.forall_operator hnone)⟩

end Joins

end Parse

end GatewayPolicy
