import GatewayPolicy.Proofs.Reading.Collecting
import GatewayPolicy.Proofs.Reading.SameTokens
import GatewayPolicy.Proofs.Reading.Totality

/-! # Expressions over the tokens of a file

  A cursor stands in front of a token of the file, so the tokens that a parse takes are
  those from one index up to another. An expression is laid over tokens when its place
  reaches from the first of them to the last, and the expressions inside it are laid over
  tokens among these, one behind the other.

  - `JoinedFrom` says which tokens a place is joined from. Where tokens stand in order, such
    a place reaches from the first of them to the last.
  - `Expr.LaidOn` is the invariant of an expression, `Expr.LaidWithin` that of a list.
  - `Expr.ReadBetween` says which of the tokens taken an expression is laid over. It is all
    of them but for an exclamation mark at the end, which most expressions leave out.
  - `Cursor.Lays` says that the expressions read between two cursors are laid over what was
    taken there.
-/

namespace GatewayPolicy

/-! ## Joined places -/

/-- A place that is joined from tokens, the first of them at one index and the last at
    another. -/
inductive JoinedFrom (ts : List Token) : Nat → Nat → Span → Prop where
  | token {i : Nat} {t : Token} (get : ts[i]? = some t) : JoinedFrom ts i i t.span
  | cover {i j k l : Nat} {r s : Span} (left : JoinedFrom ts i j r)
      (right : JoinedFrom ts k l s) : JoinedFrom ts (min i k) (max j l) (r.cover s)

namespace JoinedFrom

variable {ts : List Token} {i k a b : Nat} {r s : Span}

theorem le (h : JoinedFrom ts i k s) : i ≤ k := by
  induction h with
  | token _ => exact Nat.le_refl _
  | cover _ _ hleft hright => omega

/-- A place from one stretch to a later one. -/
theorem upto (hr : JoinedFrom ts i k r) (hs : JoinedFrom ts a b s) (hi : i ≤ a) (hk : k ≤ b) :
    JoinedFrom ts i b (r.cover s) := by
  have hcover := hr.cover hs
  rwa [Nat.min_eq_left hi, Nat.max_eq_right hk] at hcover

/-- Tokens in order make a stretch. -/
theorem isStretch (h : JoinedFrom ts i k s) (hts : ts.Pairwise Token.Before) :
    IsStretch ts i k s := by
  induction h with
  | token get => exact isStretch_token get
  | cover _ _ hleft hright => exact hleft.cover hts hright

/-- A joined place starts in the line and column of one of its tokens. -/
theorem starts (h : JoinedFrom ts i k s) : ∃ j t, i ≤ j ∧ j ≤ k ∧ ts[j]? = some t ∧
    s.line = t.span.line ∧ s.column = t.span.column := by
  induction h with
  | token get => exact ⟨_, _, Nat.le_refl _, Nat.le_refl _, get, rfl, rfl⟩
  | cover _ _ hleft hright =>
    unfold Span.cover
    split
    · obtain ⟨j, t, hi, hk, ht, hplace⟩ := hleft
      exact ⟨j, t, by omega, by omega, ht, hplace⟩
    · obtain ⟨j, t, hi, hk, ht, hplace⟩ := hright
      exact ⟨j, t, by omega, by omega, ht, hplace⟩

end JoinedFrom

/-! ## Laid expressions -/

mutual

/-- An expression is laid over the tokens from one index to another. -/
inductive Expr.LaidOn (ts : List Token) : Nat → Nat → Expr → Prop where
  | intro {i k : Nat} {e : Expr} (span : JoinedFrom ts i k e.span)
      (parts : Expr.LaidWithin ts i (k + 1) e.parts) : Expr.LaidOn ts i k e

/-- Expressions are laid over tokens one behind the other, all of them from one index on and
    before another. -/
inductive Expr.LaidWithin (ts : List Token) : Nat → Nat → List Expr → Prop where
  | nil {i j : Nat} (le : i ≤ j) : Expr.LaidWithin ts i j []
  | cons {i j first last : Nat} {e : Expr} {es : List Expr} (le : i ≤ first)
      (head : Expr.LaidOn ts first last e) (tail : Expr.LaidWithin ts (last + 1) j es) :
      Expr.LaidWithin ts i j (e :: es)

end

namespace Expr

variable {ts : List Token} {i j k i' j' : Nat} {e : Expr} {es fs : List Expr}

theorem LaidOn.span (h : e.LaidOn ts i k) : JoinedFrom ts i k e.span := by
  cases h
  assumption

theorem LaidOn.le (h : e.LaidOn ts i k) : i ≤ k := h.span.le

theorem LaidWithin.le (h : LaidWithin ts i j es) : i ≤ j := by
  induction es generalizing i with
  | nil =>
    cases h
    assumption
  | cons e es ih =>
    cases h with
    | cons hle head tail =>
      have hhead := head.le
      have htail := ih tail
      omega

/-- Expressions laid over some tokens are laid over more. -/
theorem LaidWithin.mono (h : LaidWithin ts i j es) (hi : i' ≤ i) (hj : j ≤ j') :
    LaidWithin ts i' j' es := by
  induction es generalizing i i' with
  | nil => exact .nil (hi.trans (h.le.trans hj))
  | cons e es ih =>
    cases h with
    | cons hle head tail => exact .cons (hi.trans hle) head (ih tail (Nat.le_refl _))

theorem LaidWithin.append (hes : LaidWithin ts i j es) (hfs : LaidWithin ts j k fs) :
    LaidWithin ts i k (es ++ fs) := by
  induction es generalizing i with
  | nil => exact hfs.mono hes.le (Nat.le_refl _)
  | cons e es ih =>
    cases hes with
    | cons hle head tail => exact .cons hle head (ih tail)

/-- An expression as the only one of a list. -/
theorem LaidOn.within (h : e.LaidOn ts i k) (hi : i' ≤ i) (hk : k < j) :
    LaidWithin ts i' j [e] :=
  .cons hi h (.nil hk)

end Expr

/-- An expression whose place reaches from an earlier stretch to the end of a part. -/
theorem Expr.LaidOn.upto {ts : List Token} {i k a b : Nat}
    {s : Span} {e part : Expr} (hpart : part.LaidOn ts a b) (hs : JoinedFrom ts i k s)
    (hk : k < a) (hspan : e.span = s.cover part.span)
    (hparts : Expr.LaidWithin ts i (b + 1) e.parts) : e.LaidOn ts i b := by
  refine .intro ?_ hparts
  rw [hspan]
  exact hs.upto hpart.span (hs.le.trans hk.le) (hk.le.trans hpart.le)

/-! ## Exclamation marks -/

/-- The token at an index is an exclamation mark. -/
def MarkAt (ts : List Token) (k : Nat) : Prop := ∃ t, ts[k]? = some t ∧ t.isSymbol .bang = true

theorem not_markAt {ts : List Token} {k : Nat} {t : Token} (h : ts[k]? = some t)
    (ht : t.isSymbol .bang = false) : ¬MarkAt ts k := by
  rintro ⟨u, hu, hmark⟩
  rw [h] at hu
  obtain rfl := Option.some.inj hu
  rw [ht] at hmark
  cases hmark

/-- What ends at an index ends right before the other one, or a mark stands between. -/
def EndsBehind (ts : List Token) (k j : Nat) : Prop :=
  (k + 1 = j ∧ ¬MarkAt ts k) ∨ (k + 2 = j ∧ MarkAt ts (k + 1))

theorem EndsBehind.lt {ts : List Token} {k j : Nat} (h : EndsBehind ts k j) : k < j := by
  rcases h with ⟨h, -⟩ | ⟨h, -⟩ <;> omega

namespace Expr

/-- Whether an exclamation mark at the end belongs to an expression. It is kept where the
    place of an expression reaches to the token taken last, and dropped where it reaches to
    the end of its last part. -/
def keepsMark : Expr → Bool
  | .lambda .. | .unparsed _ => true
  | .assign _ _ value _ => value.keepsMark
  | .conditional _ _ whenFalse _ => whenFalse.keepsMark
  | _ => false

/-- An expression is laid over all tokens from one index up to another. -/
def ClosedBetween (ts : List Token) (i j : Nat) (e : Expr) : Prop :=
  ∃ k, k + 1 = j ∧ e.LaidOn ts i k ∧ ¬MarkAt ts k ∧ e.keepsMark = false

/-- An expression is laid over the tokens from one index up to another without a mark at the
    end. -/
def OperandBetween (ts : List Token) (i j : Nat) (e : Expr) : Prop :=
  ∃ k, e.LaidOn ts i k ∧ EndsBehind ts k j ∧ e.keepsMark = false

/-- An expression is laid over the tokens from one index up to another, a mark at the end
    included only if it belongs to it. -/
def ReadBetween (ts : List Token) (i j : Nat) (e : Expr) : Prop :=
  ∃ k, e.LaidOn ts i k ∧ if e.keepsMark then k + 1 = j else EndsBehind ts k j

variable {ts : List Token} {i j : Nat} {e : Expr}

theorem ClosedBetween.within (h : e.ClosedBetween ts i j) : LaidWithin ts i j [e] := by
  obtain ⟨k, hk, hlaid, -⟩ := h
  exact hlaid.within (Nat.le_refl _) (by omega)

theorem ClosedBetween.operand (h : e.ClosedBetween ts i j) : e.OperandBetween ts i j := by
  obtain ⟨k, hk, hlaid, hmark, hkeeps⟩ := h
  exact ⟨k, hlaid, .inl ⟨hk, hmark⟩, hkeeps⟩

theorem OperandBetween.read (h : e.OperandBetween ts i j) : e.ReadBetween ts i j := by
  obtain ⟨k, hlaid, hends, hkeeps⟩ := h
  refine ⟨k, hlaid, ?_⟩
  rw [hkeeps]
  exact hends

theorem ReadBetween.laid (h : e.ReadBetween ts i j) : ∃ k, k < j ∧ e.LaidOn ts i k := by
  obtain ⟨k, hlaid, hends⟩ := h
  refine ⟨k, ?_, hlaid⟩
  split at hends
  · omega
  · exact hends.lt

theorem ReadBetween.within {i' : Nat} (h : e.ReadBetween ts i j) (hi : i' ≤ i) :
    LaidWithin ts i' j [e] := by
  obtain ⟨k, hk, hlaid⟩ := h.laid
  exact hlaid.within hi hk

end Expr

/-! ## Cursors at indices -/

namespace Cursor.StandsAt

variable {α : Type} {ts : List Token} {stop : Span} {i j : Nat} {c d : Cursor} {n m : Nesting}
  {p : Parse α} {v : α}

theorem forward [Parse.Forward p] (hc : c.StandsAt ts stop i) (h : p c n = .ok v d m) :
    ∃ j, i ≤ j ∧ d.StandsAt ts stop j := by
  obtain ⟨taken, htakes⟩ := Parse.Forward.reaches h
  exact ⟨_, Nat.le_add_right _ _, hc.takes htakes⟩

/-- A token that is next stands at the index of the cursor, and is passed. -/
theorem next (hc : c.StandsAt ts stop i) (h : c.peek.isEof = false) :
    ts[i]? = some c.peek ∧ c.next.StandsAt ts stop (i + 1) := by
  have htakes := takes_next h
  refine ⟨?_, hc.takes htakes⟩
  have hrest := htakes.rest
  rw [hc.rest] at hrest
  rw [← List.head?_drop, hrest]
  rfl

theorem expect {s : Symbol} {t : Token} (hc : c.StandsAt ts stop i)
    (h : Parse.expect s c n = .ok t d m) :
    ts[i]? = some t ∧ d.StandsAt ts stop (i + 1) ∧ t.isSymbol s = true := by
  obtain ⟨rfl, rfl, hs⟩ := Parse.expect_eq_ok h
  obtain ⟨ht, hd⟩ := hc.next (Token.not_eof_of_isSymbol hs)
  exact ⟨ht, hd, hs⟩

/-- The token taken last stands right before the cursor. -/
theorem last_eq (hd : d.StandsAt ts stop (j + 1)) : ∃ t, ts[j]? = some t ∧ d.last = t.span := by
  obtain ⟨t, ht, hlast⟩ := hd.last
  have hinside := hd.inside
  rw [Nat.add_sub_cancel, List.getElem?_append_left (by omega)] at ht
  exact ⟨t, ht, hlast⟩

/-- The place from a token to the token taken last. -/
theorem stretch (hd : d.StandsAt ts stop (j + 1)) {s : Span}
    {k : Nat} (hs : JoinedFrom ts i k s) (hk : k ≤ j) : JoinedFrom ts i j (s.cover d.last) := by
  obtain ⟨t, ht, hlast⟩ := hd.last_eq
  rw [hlast]
  exact hs.upto (JoinedFrom.token ht) (hs.le.trans hk) hk

end Cursor.StandsAt

/-! ## Expressions between cursors -/

/-- Expressions are laid over the tokens between two cursors, one behind the other. -/
def Cursor.Lays (ts : List Token) (stop : Span) (c d : Cursor) (es : List Expr) : Prop :=
  ∀ {i : Nat}, c.StandsAt ts stop i → ∃ j, d.StandsAt ts stop j ∧ Expr.LaidWithin ts i j es

/-- Tokens in front of expressions and behind them are left out. -/
instance (ts : List Token) (stop : Span) : Gathers (Cursor.Lays ts stop) where
  nil hreach := by
    intro i hc
    obtain ⟨taken, htakes⟩ := hreach
    exact ⟨_, hc.takes htakes, .nil (Nat.le_add_right _ _)⟩
  append hx hy := by
    intro i hc
    obtain ⟨j, hd, hfirst⟩ := hx hc
    obtain ⟨k, he, hsecond⟩ := hy hd
    exact ⟨k, he, hfirst.append hsecond⟩

end GatewayPolicy
