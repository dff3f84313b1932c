import GatewayPolicy.Proofs.Model.Derivation
import Mathlib.Algebra.Group.Nat.Defs

/-! # Integer constants

  Constants are texts, and the rules for them know no numbers: `+` joins the texts of its
  operands and `-` puts a sign in front of a text. So a number that is written down, or
  negated once, keeps its value, and a sum never does.

  - `IntegerTerm` is an integer expression with everything resolved, with its value as a
    number and its text as a constant.
  - `IntegerTerm.natAbs_value_le` bounds the value by what the text spells. Joined texts
    spell more than the sum of what their parts spell, so they spell no sum.
  - `Model.evaluate_integer` is the result.
-/

namespace GatewayPolicy

/-! ## Integer expressions -/

/-- An integer expression without parentheses, in which references are replaced by what they
    stand for. -/
inductive IntegerTerm where
  | literal (n : Nat)
  | negate (operand : IntegerTerm)
  | add (left right : IntegerTerm)
  deriving DecidableEq, Repr

namespace IntegerTerm

/-- The number that an expression stands for. -/
def value : IntegerTerm → Int
  | literal n => n
  | negate operand => -operand.value
  | add left right => left.value + right.value

/-- The text that an expression is evaluated to. -/
def text : IntegerTerm → String
  | literal n => toString n
  | negate operand => "-" ++ operand.text
  | add left right => left.text ++ right.text

/-- A literal with at most one sign in front, and none in front of zero. -/
inductive IsNumeral : IntegerTerm → Prop where
  | literal (n : Nat) : IsNumeral (.literal n)
  | negated {n : Nat} (h : n ≠ 0) : IsNumeral (.negate (.literal n))

end IntegerTerm

/-- The expressions in the scope of a class that are built from decimal literals without
    leading zeros, parentheses, `-`, `+` and references to such constants, each with what it
    is when everything in it is resolved. -/
inductive Model.Integer (m : Model) : String → Expr → IntegerTerm → Prop where
  | literal {className : String} {l : Literal} {n : Nat} (hkind : l.kind = .number)
      (hdigits : l.value = toString n) : Integer m className (.literal l) (.literal n)
  | paren {className : String} {inner : Expr} {a : IntegerTerm} (h : Integer m className inner a)
      (span : Span) : Integer m className (.paren inner span) a
  | negate {className : String} {operand : Expr} {a : IntegerTerm}
      (h : Integer m className operand a) (span : Span) :
      Integer m className (.unary .negate operand span) (.negate a)
  | add {className : String} {left right : Expr} {a b : IntegerTerm}
      (hleft : Integer m className left a) (hright : Integer m className right b) (span : Span) :
      Integer m className (.binary .add left right span) (.add a b)
  | constant {className : String} {e initial : Expr} {a : IntegerTerm} {path : List String}
      {key : String × String} (hpath : e.HasPath path) (hkey : NamesField className path key)
      (hconstant : m.IsConstant key initial) (h : Integer m key.1 initial a) :
      Integer m className e a

theorem Model.Integer.derives {m : Model} {className : String} {e : Expr} {a : IntegerTerm}
    (h : m.Integer className e a) : m.Derives className e a.text := by
  induction h with
  | literal hkind hdigits =>
    rw [IntegerTerm.text, ← hdigits]
    exact .literal (by simp [hkind]) (by simp [hkind])
  | paren h span ih => exact .paren ih span
  | negate h span ih => exact .negate ih span
  | add hleft hright span ihleft ihright => exact .add ihleft ihright span
  | constant hpath hkey hconstant h ih => exact .constant hpath hkey hconstant ih

/-! ## Digits -/

theorem ofDigitChars_append_eq (xs ys : List Char) :
    Nat.ofDigitChars 10 (xs ++ ys) 0 =
      10 ^ ys.length * Nat.ofDigitChars 10 xs 0 + Nat.ofDigitChars 10 ys 0 := by
  rw [Nat.ofDigitChars_append, Nat.ofDigitChars_eq_ofDigitChars_zero]

theorem ofDigitChars_lt {cs : List Char} (h : ∀ c ∈ cs, c.isDigit = true) :
    Nat.ofDigitChars 10 cs 0 < 10 ^ cs.length := by
  induction cs with
  | nil => decide
  | cons c cs ih =>
    have hrest := ih fun d hd => h d (List.mem_cons_of_mem c hd)
    have hdigit : c.toNat - '0'.toNat ≤ 9 := by
      have hc : c.toNat ≤ '9'.toNat := by
        have hc := h c List.mem_cons_self
        simp only [Char.isDigit, Bool.and_eq_true, decide_eq_true_eq] at hc
        exact hc.2
      have hnine : '9'.toNat = '0'.toNat + 9 := by decide
      omega
    rw [Nat.ofDigitChars_cons, Nat.ofDigitChars_eq_ofDigitChars_zero, List.length_cons,
      Nat.pow_succ]
    have hfirst : 10 ^ cs.length * (10 * 0 + (c.toNat - '0'.toNat)) ≤ 10 ^ cs.length * 9 :=
      Nat.mul_le_mul_left _ (by omega)
    omega

/-- The digits of a number are no two texts that spell it as their sum. -/
theorem lt_of_toDigits_eq_append {n : Nat} {xs ys : List Char} (hxs : xs ≠ []) (hys : ys ≠ [])
    (h : Nat.toDigits 10 n = xs ++ ys) :
    Nat.ofDigitChars 10 xs 0 + Nat.ofDigitChars 10 ys 0 < n := by
  have hlength : ys.length < (Nat.toDigits 10 n).length := by
    have hpos := List.length_pos_of_ne_nil hxs
    rw [h, List.length_append]
    omega
  -- the number has more digits than the second text, so the first is not all zeros
  have hlarge : 10 ^ ys.length ≤ n := by
    have hdigits := Nat.length_toDigits_le_iff (b := 10) (n := n) (by decide)
      (List.length_pos_of_ne_nil hys)
    omega
  have hvalue : n = 10 ^ ys.length * Nat.ofDigitChars 10 xs 0 + Nat.ofDigitChars 10 ys 0 := by
    rw [← ofDigitChars_append_eq, ← h, Nat.ofDigitChars_ten_toDigits]
  have hsecond : Nat.ofDigitChars 10 ys 0 < 10 ^ ys.length := by
    apply ofDigitChars_lt
    intro c hc
    have hmem : c ∈ Nat.toDigits 10 n := h ▸ List.mem_append_right xs hc
    exact Nat.isDigit_of_mem_toDigits (by decide) (by decide) hmem
  have hfirst : 0 < Nat.ofDigitChars 10 xs 0 := by
    rcases Nat.eq_zero_or_pos (Nat.ofDigitChars 10 xs 0) with hzero | hpos
    · rw [hzero] at hvalue
      omega
    · exact hpos
  have hten : 10 ≤ 10 ^ ys.length := by
    have hpos := List.length_pos_of_ne_nil hys
    calc 10 = 10 ^ 1 := rfl
      _ ≤ 10 ^ ys.length := Nat.pow_le_pow_right (by decide) hpos
  have hshift := Nat.mul_le_mul_right (Nat.ofDigitChars 10 xs 0) hten
  omega

theorem minus_not_mem_toDigits (n : Nat) : '-' ∉ Nat.toDigits 10 n := by
  intro h
  have hdigit := Nat.isDigit_of_mem_toDigits (b := 10) (by decide) (by decide) h
  revert hdigit
  decide

/-! ## What texts spell -/

namespace IntegerTerm

theorem toList_literal (n : Nat) : (literal n).text.toList = Nat.toDigits 10 n := Nat.toList_repr

theorem toList_negate (a : IntegerTerm) : (negate a).text.toList = '-' :: a.text.toList := by
  rw [text, String.toList_append]
  rfl

theorem toList_add (a b : IntegerTerm) :
    (add a b).text.toList = a.text.toList ++ b.text.toList := by
  rw [text, String.toList_append]

theorem toList_ne_nil (a : IntegerTerm) : a.text.toList ≠ [] := by
  induction a with
  | literal n =>
    rw [toList_literal]
    exact Nat.toDigits_ne_nil
  | negate a ih =>
    rw [toList_negate]
    exact List.cons_ne_nil _ _
  | add a b iha ihb =>
    rw [toList_add]
    exact List.append_ne_nil_of_left_ne_nil iha _

/-- A sign never stands alone. -/
theorem toList_ne_minus (a : IntegerTerm) : a.text.toList ≠ ['-'] := by
  cases a with
  | literal n =>
    rw [toList_literal]
    intro h
    exact minus_not_mem_toDigits n (h ▸ List.mem_singleton_self '-')
  | negate a =>
    rw [toList_negate]
    intro h
    exact a.toList_ne_nil (List.cons.inj h).2
  | add a b =>
    rw [toList_add]
    intro h
    have hlength := congrArg List.length h
    have ha := List.length_pos_of_ne_nil a.toList_ne_nil
    have hb := List.length_pos_of_ne_nil b.toList_ne_nil
    rw [List.length_append, List.length_singleton] at hlength
    omega

/-- A text with at most a sign in front spells no less than the size of the value. -/
theorem natAbs_value_le {a : IntegerTerm} {digits : List Char}
    (h : a.text.toList = digits ∨ a.text.toList = '-' :: digits) (hdigits : '-' ∉ digits) :
    a.value.natAbs ≤ Nat.ofDigitChars 10 digits 0 := by
  induction a generalizing digits with
  | literal n =>
    rw [toList_literal] at h
    rcases h with rfl | h
    · apply Nat.le_of_eq
      rw [Nat.ofDigitChars_ten_toDigits, value, Int.natAbs_natCast]
    · exact absurd (h ▸ List.mem_cons_self) (minus_not_mem_toDigits n)
  | negate a ih =>
    rw [toList_negate] at h
    rcases h with rfl | h
    · exact absurd List.mem_cons_self hdigits
    · rw [value, Int.natAbs_neg]
      exact ih (.inl (List.cons.inj h).2) hdigits
  | add a b iha ihb =>
    rw [toList_add] at h
    have hsum := Int.natAbs_add_le a.value b.value
    -- the sign can only stand in front of the first operand
    have hsplit : ∃ front, digits = front ++ b.text.toList ∧
        (a.text.toList = front ∨ a.text.toList = '-' :: front) := by
      rcases h with rfl | h
      · exact ⟨_, rfl, .inl rfl⟩
      · obtain ⟨c, front, hfront⟩ := List.exists_cons_of_ne_nil a.toList_ne_nil
        rw [hfront, List.cons_append, List.cons.injEq] at h
        exact ⟨front, h.2.symm, .inr (h.1 ▸ hfront)⟩
    obtain ⟨front, rfl, hfront⟩ := hsplit
    rw [List.mem_append, not_or] at hdigits
    have ha := iha hfront hdigits.1
    have hb := ihb (.inl rfl) hdigits.2
    have hone : 1 ≤ 10 ^ b.text.toList.length := Nat.one_le_pow _ _ (by decide)
    have hshift := Nat.mul_le_mul_right (Nat.ofDigitChars 10 front 0) hone
    rw [ofDigitChars_append_eq, value]
    omega

/-- The text of a number: its digits, and a sign in front if it is negative. -/
theorem toList_toString (i : Int) :
    (0 ≤ i ∧ (toString i).toList = Nat.toDigits 10 i.natAbs) ∨
      (i < 0 ∧ (toString i).toList = '-' :: Nat.toDigits 10 i.natAbs) := by
  rw [Int.toString_eq_repr, Int.repr_eq_if]
  split
  · rename_i hi
    have hnat : i.toNat = i.natAbs := by omega
    rw [hnat, Nat.toList_repr]
    exact .inl ⟨hi, rfl⟩
  · have hnat : (-i).toNat = i.natAbs := by omega
    rw [hnat, String.toList_append, Nat.toList_repr]
    exact .inr ⟨by omega, rfl⟩

/-- The text of a sum is never that of its value. -/
theorem text_add_ne (a b : IntegerTerm) : (add a b).text ≠ toString (add a b).value := by
  intro h
  have hsum := Int.natAbs_add_le a.value b.value
  -- with the sign taken off, the digits of the value are cut in two
  obtain ⟨front, hne, hfront, hdigits⟩ : ∃ front, front ≠ [] ∧
      (a.text.toList = front ∨ a.text.toList = '-' :: front) ∧
      Nat.toDigits 10 (a.value + b.value).natAbs = front ++ b.text.toList := by
    have hlist := congrArg String.toList h
    rw [toList_add, value] at hlist
    rcases toList_toString (a.value + b.value) with ⟨-, hvalue⟩ | ⟨-, hvalue⟩
    · exact ⟨_, a.toList_ne_nil, .inl rfl, hvalue.symm.trans hlist.symm⟩
    · obtain ⟨c, front, hfront⟩ := List.exists_cons_of_ne_nil a.toList_ne_nil
      rw [hvalue, hfront, List.cons_append, List.cons.injEq] at hlist
      obtain ⟨rfl, hlist⟩ := hlist
      refine ⟨front, ?_, .inr hfront, hlist.symm⟩
      rintro rfl
      exact a.toList_ne_minus hfront
  have hminus := minus_not_mem_toDigits (a.value + b.value).natAbs
  rw [hdigits, List.mem_append, not_or] at hminus
  have ha := natAbs_value_le hfront hminus.1
  have hb := natAbs_value_le (.inl rfl) hminus.2
  have hlt := lt_of_toDigits_eq_append hne b.toList_ne_nil hdigits
  omega

/-- A text is that of its value exactly for numerals. -/
theorem text_eq_iff (a : IntegerTerm) : a.text = toString a.value ↔ a.IsNumeral := by
  constructor
  · intro h
    induction a with
    | literal n => exact .literal n
    | negate a ih =>
      have hlist := congrArg String.toList h
      rw [toList_negate, value] at hlist
      rcases toList_toString (-a.value) with ⟨-, hvalue⟩ | ⟨hneg, hvalue⟩
      · rw [hvalue] at hlist
        exact absurd (hlist ▸ List.mem_cons_self) (minus_not_mem_toDigits _)
      · rw [hvalue, List.cons.injEq] at hlist
        have hoperand : a.text = toString a.value := by
          apply String.toList_injective
          rcases toList_toString a.value with ⟨-, hoperand⟩ | ⟨hoperand, -⟩
          · rw [hoperand, hlist.2, Int.natAbs_neg]
          · omega
        cases ih hoperand with
        | literal n =>
          refine .negated ?_
          rintro rfl
          simp [value] at hneg
        | negated hn =>
          rw [value, value] at hneg
          omega
    | add a b => exact absurd h (text_add_ne a b)
  · intro h
    cases h with
    | literal n => rfl
    | @negated n hn =>
      apply String.toList_injective
      rw [toList_negate, toList_literal, value, value]
      rcases toList_toString (-(n : Int)) with ⟨hvalue, -⟩ | ⟨-, hvalue⟩
      · omega
      · rw [hvalue, Int.natAbs_neg, Int.natAbs_natCast]

end IntegerTerm

/-! ## The result -/

/-- An integer expression is evaluated to its text, in which `+` joins the texts of its
    operands and `-` stands in front. That is the decimal text of its value exactly when it
    is a literal, negated at most once and then not zero. -/
theorem Model.evaluate_integer {m : Model} {className : String} {e : Expr} {a : IntegerTerm}
    (h : m.Integer className e a) :
    m.evaluate className e = .ok a.text ∧
      (m.evaluate className e = .ok (toString a.value) ↔ a.IsNumeral) := by
  have htext := h.derives.evaluate_eq
  refine ⟨htext, ?_⟩
  rw [htext, Except.ok.injEq]
  exact a.text_eq_iff

namespace IntegerTerm

/-- The expression `n`. -/
def numberExpr (n : Nat) : Expr :=
  .literal { kind := .number, value := toString n, span := default }

/-- The expression `Limits.Calls`. -/
def callsExpr : Expr := .member (.name "Limits" default) "Calls" false default

/-- A compilation in which `Limits.Calls` is a constant with this initializer. -/
def limits (initial : Expr) : Model := .ofConstants "Limits" [("Calls", initial)]

theorem integer_calls {initial : Expr} {a : IntegerTerm}
    (h : (limits initial).Integer "Limits" initial a) :
    (limits initial).Integer "C" callsExpr a := by
  refine .constant (.member (.name "Limits" default) "Calls" default)
    (.qualified [] "Limits" "Calls") ?_ h
  exact ⟨_, ⟨[], [], rfl, rfl, List.forall_mem_nil _⟩, rfl, rfl⟩

end IntegerTerm

open IntegerTerm in
/-- Where `Limits.Calls` is `5`, its negation is `-5`. -/
theorem Model.evaluate_integer_negated :
    (limits (numberExpr 5)).evaluate "C" (.unary .negate callsExpr default) = .ok "-5" := by
  have hfive : (limits (numberExpr 5)).Integer "C" (.unary .negate callsExpr default)
      (.negate (.literal 5)) :=
    .negate (integer_calls (.literal rfl rfl)) default
  exact (Model.evaluate_integer hfive).2.mpr (.negated (by decide))

open IntegerTerm in
/-- Where `Limits.Calls` is `1 + 2`, it is evaluated to `12` and not to `3`. -/
theorem Model.evaluate_integer_sum :
    let m := limits (.binary .add (numberExpr 1) (numberExpr 2) default)
    m.Integer "C" callsExpr (.add (.literal 1) (.literal 2)) ∧
      (IntegerTerm.add (.literal 1) (.literal 2)).value = 3 ∧
      m.evaluate "C" callsExpr = .ok "12" ∧
        m.evaluate "C" callsExpr ≠ .ok (toString (3 : Int)) := by
  refine ⟨integer_calls (.add (.literal rfl rfl) (.literal rfl rfl) default), rfl, ?_, ?_⟩
  · decide
  · decide

end GatewayPolicy
