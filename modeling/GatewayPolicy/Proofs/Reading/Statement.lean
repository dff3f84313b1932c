import GatewayPolicy.Authoring.Statement
import GatewayPolicy.Proofs.Reading.Expression

/-! # Statements, side by side

  One lemma for each production, given that the expressions and statements one
  level deeper are read alike. A statement that cannot be read is skipped in both
  files, up to corresponding tokens, so the statements after it stay aligned.
-/

namespace GatewayPolicy

namespace Parse

variable {a : Alignment} {p : Parse Expr} {q : Parse Stmt}

theorem bind_eq_ok {α β : Type} {x : Parse α} {f : α → Parse β} {c d : Cursor} {n m : Nesting}
    {v : β} (h : (x >>= f) c n = .ok v d m) :
    ∃ w c' n', x c n = .ok w c' n' ∧ f w c' n' = .ok v d m := by
  change Parse.bind x f c n = _ at h
  unfold Parse.bind at h
  split at h
  · exact ⟨_, _, _, ‹_›, h⟩
  · cases h

/-- What follows a parse may use how the parse went. -/
theorem Aligned.bind_ran {α β : Type} {R : α → α → Prop} {Q : β → β → Prop}
    {x y : Parse α} {f g : α → Parse β} (hx : Aligned a R x y) {c c' : Cursor}
    (hc : a.Cursors c c') {n n' : Nesting} (hn : a.Nestings n n')
    (hf : ∀ {v v' d d' m m'}, x c n = .ok v d m → R v v' → a.Cursors d d' → a.Nestings m m' →
      a.Steps Q (f v d m) (g v' d' m')) :
    a.Steps Q ((x >>= f) c n) ((y >>= g) c' n') := by
  show a.Steps Q (Parse.bind x f c n) (Parse.bind y g c' n')
  unfold Parse.bind
  have h := hx hc hn
  revert h
  cases hxc : x c n with
  | ok v d m =>
    generalize y c' n' = z
    rintro (⟨value, cursor, nesting⟩ | _)
    exact hf hxc value cursor nesting
  | fail e m =>
    generalize y c' n' = z
    rintro (_ | ⟨error, nesting⟩)
    exact .fail error nesting

/-- A parse that fails takes nothing. -/
theorem cursor_of_observed {α : Type} {x : Parse α} {c d : Cursor} {n m : Nesting}
    {e : SyntaxError} (h : Parse.observe x c n = .ok (.error e) d m) : d = c := by
  unfold Parse.observe at h
  split at h
  · cases h
  · cases h
    rfl

/-! ## Malformed statements -/

/-- At the end of a file there is nothing to skip. -/
theorem not_eof_of_skipStatement {c d : Cursor} {n m : Nesting} {u : Unit}
    (h : skipStatement c n = .ok u d m) : c.peek.isEof = false := by
  by_contra heof
  rw [Bool.not_eq_false] at heof
  obtain ⟨_, c', n', hskip, h⟩ := bind_eq_ok h
  have hstay : c' = c := by
    unfold skipTo bounded at hskip
    cases hlength : c.rest.length with
    | zero =>
      rw [hlength] at hskip
      cases hskip
      rfl
    | succ k =>
      rw [hlength] at hskip
      obtain ⟨_, _, _, hpeek, hskip⟩ := bind_eq_ok hskip
      cases hpeek
      rw [if_pos (by rw [heof, Bool.true_or])] at hskip
      cases hskip
      rfl
  obtain ⟨_, _, _, hpeek, h⟩ := bind_eq_ok h
  cases hpeek
  have hsymbol : ∀ s, ¬ c'.peek.isSymbol s = true := by
    intro s hs
    rw [hstay] at hs
    rw [Token.not_eof_of_isSymbol hs] at heof
    cases heof
  rw [if_neg (hsymbol _), if_neg (hsymbol _), if_neg (hsymbol _)] at h
  cases h

theorem Aligned.recovering (hq : Aligned a (Stmt.Aligned a) q q) :
    Aligned a (Stmt.Aligned a) (Parse.recovering q) (Parse.recovering q) := by
  intro c c' hc n n' hn
  refine aligned_cursor.bind_ran hc hn fun hcursor hstart hc hn => ?_
  cases hcursor
  refine hq.observe.bind_ran hc hn fun hobserved hx hbehind hn => ?_
  cases hx with
  | ok h => exact .ok h hbehind hn
  | @error e e' he =>
    -- a statement that cannot be read takes nothing
    have hback := cursor_of_observed hobserved
    subst hback
    -- both files skip to the end of the statement, unless the nesting was too deep
    refine aligned_exceeded.bind_ran hbehind hn fun hexceeded hb hc hn => ?_
    cases hexceeded
    cases hb
    extract_lets place skipped place' skipped'
    split
    · exact .fail he hn
    · refine aligned_skipStatement.bind_ran hc hn fun hskip _ hnow hn => ?_
      have hspan : a.span place place' := a.span_of hstart.peek (not_eof_of_skipStatement hskip)
      refine Aligned.bind aligned_cursor (fun now now' hnow => ?_) hnow hn
      rw [← he.fault, ← hnow.rest.length_eq, ← hstart.rest.length_eq]
      refine aligned_pure (.malformed _ ?_)
      split
      · exact hspan
      · exact a.cover_spans hspan hnow.last

/-! ## Blocks -/

theorem Aligned.statementsWithin (hq : Aligned a (Stmt.Aligned a) q q) {s s' : Span}
    (hs : a.place s s') (k : Nat) :
    Aligned a (List.Forall₂ (Stmt.Aligned a)) (Parse.statementsWithin s q k)
      (Parse.statementsWithin s' q k) := by
  induction k with
  | zero =>
    refine (aligned_at _).bind_eq fun b => ?_
    split
    · exact aligned_pure .nil
    · exact aligned_throw ⟨rfl, hs⟩
  | succ k ih =>
    refine aligned_peek.bind fun t t' ht => ?_
    rw [← Alignment.isSymbol_eq ht, ← Alignment.isEof_eq ht]
    split
    · exact aligned_pure .nil
    · extract_lets tail tail'
      have htail : ∀ r, Aligned a (List.Forall₂ (Stmt.Aligned a)) (tail r) (tail' r) := by
        intro r
        refine hq.recovering.bind fun x x' hx => ?_
        exact ih.bind fun xs xs' hxs => aligned_pure (.cons hx hxs)
      split
      · exact Aligned.bind_eq (aligned_throw ⟨rfl, hs⟩) htail
      · exact htail ()

/-- The statements of a block end in front of the brace that closes it. -/
theorem closeBrace_of_statementsWithin {s : Span} {k : Nat} {c d : Cursor} {n m : Nesting}
    {ss : List Stmt} (h : Parse.statementsWithin s q k c n = .ok ss d m) :
    d.peek.isSymbol .closeBrace = true := by
  -- the run can end well in one way only: it has looked at the brace and stopped there
  induction k generalizing c n ss with
  | zero =>
    obtain ⟨b, _, _, hb, h⟩ := bind_eq_ok h
    cases hb
    split at h
    · cases h
      assumption
    · cases h
  | succ k ih =>
    obtain ⟨t, _, _, ht, h⟩ := bind_eq_ok h
    cases ht
    split at h
    · cases h
      assumption
    · extract_lets tail at h
      have htail : ∀ {c n}, tail () c n = .ok ss d m → d.peek.isSymbol .closeBrace = true := by
        intro c n h
        obtain ⟨_, _, _, _, h⟩ := bind_eq_ok h
        obtain ⟨_, _, _, hrest, h⟩ := bind_eq_ok h
        cases h
        exact ih hrest
      split at h
      · obtain ⟨_, _, _, hthrow, _⟩ := bind_eq_ok h
        cases hthrow
      · exact htail h

theorem Aligned.block (hq : Aligned a (Stmt.Aligned a) q q) :
    Aligned a (fun x y => List.Forall₂ (Stmt.Aligned a) x.1 y.1 ∧ a.Braced x.2 y.2)
      (Parse.block q) (Parse.block q) := by
  refine (aligned_expect _).bind fun t t' ht => ?_
  have hstatements := aligned_bounded (hq.statementsWithin (a.place_of ht.1))
  intro c c' hc n n' hn
  refine hstatements.bind_ran hc hn fun {ss ss' d d' m m'} hread hss hd hm => ?_
  have hclose := closeBrace_of_statementsWithin hread
  -- the token taken last is a brace, because the statements ended in front of one
  have hbraced : a.Braced (t.span.cover d.peek.span) (t'.span.cover d'.peek.span) :=
    ⟨t, t', d.peek, d'.peek, ht.1, hd.peek, ht.2, hclose, rfl, rfl⟩
  exact .ok ⟨hss, hbraced⟩ hd.next hm

/-! ## Statements kept by their kind -/

theorem aligned_otherFrom (which : OtherStatement) {s s' : Span} (hs : a.place s s') :
    Aligned a (Stmt.Aligned a) (otherFrom which s) (otherFrom which s') :=
  aligned_last.bind fun _ _ hl => aligned_pure (.other which (a.cover hs hl))

theorem aligned_jump (which : OtherStatement) :
    Aligned a (Stmt.Aligned a) (jump which) (jump which) := by
  refine aligned_here.bind fun s s' hs => ?_
  refine aligned_advance.bind fun _ _ _ => ?_
  exact aligned_skipPastSemicolon.bind_eq fun _ => aligned_otherFrom which hs

theorem aligned_parenGroup : Aligned a Eq parenGroup parenGroup :=
  (aligned_require _).bind_eq fun _ => aligned_skipGroup.bind fun _ _ _ => aligned_pure rfl

theorem Aligned.guarded (which : OtherStatement) (hq : Aligned a (Stmt.Aligned a) q q) :
    Aligned a (Stmt.Aligned a) (Parse.guarded which q) (Parse.guarded which q) := by
  refine aligned_here.bind fun s s' hs => ?_
  refine aligned_advance.bind fun _ _ _ => ?_
  refine aligned_parenGroup.bind_eq fun _ => ?_
  exact hq.recovering.bind fun _ _ _ => aligned_otherFrom which hs

theorem Aligned.usingStatement (hq : Aligned a (Stmt.Aligned a) q q) :
    Aligned a (Stmt.Aligned a) (Parse.usingStatement q) (Parse.usingStatement q) := by
  refine aligned_here.bind fun s s' hs => ?_
  refine aligned_advance.bind fun _ _ _ => ?_
  refine (aligned_at _).bind_eq fun b => ?_
  split
  · refine aligned_skipGroup.bind fun _ _ _ => ?_
    exact hq.recovering.bind fun _ _ _ => aligned_otherFrom _ hs
  · exact aligned_skipPastSemicolon.bind_eq fun _ => aligned_otherFrom _ hs

theorem Aligned.doStatement (hq : Aligned a (Stmt.Aligned a) q q) :
    Aligned a (Stmt.Aligned a) (Parse.doStatement q) (Parse.doStatement q) := by
  refine aligned_here.bind fun s s' hs => ?_
  refine aligned_advance.bind fun _ _ _ => ?_
  refine hq.recovering.bind fun _ _ _ => ?_
  refine (aligned_expectWord _).bind fun _ _ _ => ?_
  refine aligned_parenGroup.bind_eq fun _ => ?_
  exact (aligned_expect _).bind fun _ _ _ => aligned_otherFrom _ hs

theorem aligned_switchStatement : Aligned a (Stmt.Aligned a) switchStatement switchStatement := by
  refine aligned_here.bind fun s s' hs => ?_
  refine aligned_advance.bind fun _ _ _ => ?_
  refine aligned_parenGroup.bind_eq fun _ => ?_
  refine (aligned_require _).bind_eq fun _ => ?_
  exact aligned_skipGroup.bind fun _ _ _ => aligned_otherFrom _ hs

theorem Aligned.catchesWithin (hq : Aligned a (Stmt.Aligned a) q q) (k : Nat) :
    Aligned a Eq (Parse.catchesWithin q k) (Parse.catchesWithin q k) := by
  induction k with
  | zero => exact aligned_pure rfl
  | succ k ih =>
    refine (aligned_eatWord _).bind_eq fun b => ?_
    split
    · refine (aligned_at _).bind_eq fun b => ?_
      -- a caught type and a filter may stand in front of the clause's block
      extract_lets clause filtered
      have hclause : ∀ r, Aligned a Eq (clause r) (clause r) :=
        fun _ => hq.block.bind fun _ _ _ => ih
      have hfiltered : ∀ r, Aligned a Eq (filtered r) (filtered r) := by
        intro r
        refine (aligned_eatWord _).bind_eq fun b => ?_
        split
        · exact aligned_skipGroup.bind fun _ _ _ => hclause ()
        · exact hclause ()
      split
      · exact aligned_skipGroup.bind fun _ _ _ => hfiltered ()
      · exact hfiltered ()
    · exact aligned_pure rfl

theorem Aligned.tryStatement (hq : Aligned a (Stmt.Aligned a) q q) :
    Aligned a (Stmt.Aligned a) (Parse.tryStatement q) (Parse.tryStatement q) := by
  refine aligned_here.bind fun s s' hs => ?_
  refine aligned_advance.bind fun _ _ _ => ?_
  refine hq.block.bind fun _ _ _ => ?_
  refine (aligned_bounded hq.catchesWithin).bind_eq fun _ => ?_
  refine (aligned_eatWord _).bind_eq fun b => ?_
  split
  · exact hq.block.bind fun _ _ _ => aligned_otherFrom _ hs
  · exact aligned_otherFrom _ hs

/-! ## Statements with parts -/

theorem Aligned.ifStatement (hp : Aligned a (Expr.Aligned a) p p)
    (hq : Aligned a (Stmt.Aligned a) q q) :
    Aligned a (Stmt.Aligned a) (Parse.ifStatement p q) (Parse.ifStatement p q) := by
  refine aligned_here.bind fun s s' hs => ?_
  refine aligned_advance.bind fun _ _ _ => ?_
  refine (aligned_expect _).bind fun _ _ _ => ?_
  refine hp.bind fun e e' he => ?_
  refine (aligned_expect _).bind fun _ _ _ => ?_
  refine hq.recovering.bind fun b b' hb => ?_
  refine Aligned.bind (R := Option.Rel (Stmt.Aligned a)) ?_ fun o o' ho => ?_
  · refine (aligned_eatWord _).bind_eq fun b => ?_
    split
    · exact hq.recovering.bind fun _ _ h => aligned_pure (.some h)
    · exact aligned_pure .none
  · refine aligned_last.bind fun l l' hl => ?_
    exact aligned_pure (.conditional he hb ho (a.cover hs hl))

theorem aligned_localFunction {s s' : Span} (hs : a.place s s') :
    Aligned a (Stmt.Aligned a) (localFunction s) (localFunction s') := by
  refine (aligned_at _).bind_eq fun b => ?_
  extract_lets kept tail kept' tail'
  have htail : ∀ r, Aligned a (Stmt.Aligned a) (tail r) (tail' r) := by
    intro r
    refine aligned_parenGroup.bind_eq fun _ => ?_
    refine aligned_skipConstraints.bind_eq fun _ => ?_
    refine (aligned_at _).bind_eq fun b => ?_
    split
    · exact aligned_skipGroup.bind fun _ _ _ => aligned_otherFrom _ hs
    · refine (aligned_at _).bind_eq fun b => ?_
      split
      · exact aligned_skipPastSemicolon.bind_eq fun _ => aligned_otherFrom _ hs
      · exact (aligned_expected _).bind_eq fun _ => aligned_otherFrom _ hs
  split
  · exact aligned_skipAngles.bind_eq htail
  · exact htail ()

theorem Aligned.localDeclaration (hp : Aligned a (Expr.Aligned a) p p) :
    Aligned a (Stmt.Aligned a) (Parse.localDeclaration p) (Parse.localDeclaration p) := by
  refine aligned_here.bind fun s s' hs => ?_
  refine (aligned_eatWord _).bind_eq fun _ => ?_
  refine (aligned_atWord _).bind_eq fun b => ?_
  extract_lets declared declared'
  have hdeclared : ∀ r, Aligned a (Stmt.Aligned a) (declared r) (declared' r) := by
    intro r
    refine aligned_typeName.bind_eq fun type => ?_
    refine aligned_expectName.bind fun t t' ht => ?_
    refine (aligned_atAny _).bind_eq fun b => ?_
    split
    · exact aligned_localFunction hs
    · refine Aligned.bind (R := Option.Rel (Expr.Aligned a)) ?_ fun i i' hi => ?_
      · refine (aligned_eat _).bind_eq fun b => ?_
        split
        · exact hp.bind fun _ _ h => aligned_pure (.some h)
        · exact aligned_pure .none
      · refine (aligned_at _).bind_eq fun b => ?_
        split
        · -- several variables in one declaration are not supported
          refine aligned_skipPastSemicolon.bind_eq fun _ => ?_
          refine aligned_last.bind fun l l' hl => ?_
          exact aligned_pure (.malformed _ (a.cover hs hl))
        · refine (aligned_expect _).bind fun u u' hu => ?_
          rw [← a.text_eq ht.1]
          exact aligned_pure (.declaration type ⟨t, t', ht.1, ht.2, rfl⟩ hi
            (a.cover hs (a.span_of_symbol hu)))
  split
  · exact (aligned_expected _).bind_eq hdeclared
  · exact hdeclared ()

theorem Aligned.expressionStatement (hp : Aligned a (Expr.Aligned a) p p) :
    Aligned a (Stmt.Aligned a) (Parse.expressionStatement p) (Parse.expressionStatement p) := by
  refine aligned_here.bind fun s s' hs => ?_
  refine hp.bind fun e e' he => ?_
  refine (aligned_expect _).bind fun t t' ht => ?_
  exact aligned_pure (.expression he (a.cover hs (a.span_of_symbol ht)))

theorem Aligned.plainStatement (hp : Aligned a (Expr.Aligned a) p p) :
    Aligned a (Stmt.Aligned a) (Parse.plainStatement p) (Parse.plainStatement p) := by
  refine hp.localDeclaration.attempt.bind fun x x' hx => ?_
  cases hx with
  | some h => exact aligned_pure h
  | none => exact hp.expressionStatement

theorem Aligned.wordStatement (hp : Aligned a (Expr.Aligned a) p p)
    (hq : Aligned a (Stmt.Aligned a) q q) {t t' u u' : Token} (ht : a.token t t')
    (hu : a.token u u') :
    Aligned a (Stmt.Aligned a) (Parse.wordStatement p q t u) (Parse.wordStatement p q t' u') := by
  unfold Parse.wordStatement
  rw [← a.text_eq ht, ← Alignment.isAnyWord_eq hu]
  -- one case for each word that begins a statement
  split
  · exact hp.ifStatement hq
  · exact aligned_jump _
  · exact aligned_jump _
  · exact aligned_jump _
  · exact aligned_jump _
  · exact aligned_jump _
  · split
    · exact aligned_jump _
    · exact hp.plainStatement
  · exact hq.guarded _
  · exact hq.guarded _
  · exact hq.guarded _
  · exact hq.guarded _
  · exact hq.usingStatement
  · exact hq.doStatement
  · exact aligned_switchStatement
  · exact hq.tryStatement
  · exact hp.plainStatement

theorem Aligned.statementOf (hp : Aligned a (Expr.Aligned a) p p)
    (hq : Aligned a (Stmt.Aligned a) q q) :
    Aligned a (Stmt.Aligned a) (Parse.statementOf p q) (Parse.statementOf p q) := by
  refine aligned_peek.bind fun t t' ht => ?_
  rw [← Alignment.isSymbol_eq ht, ← Alignment.isSymbol_eq ht, ← Alignment.isIdentifier_eq ht]
  split
  · refine hq.block.bind fun x x' hx => ?_
    exact aligned_pure (.block hx.1 hx.2.span)
  split
  · exact aligned_advance.bind fun _ _ _ => aligned_otherFrom _ (a.place_of ht)
  split
  · exact (aligned_peekAt 1).bind fun _ _ hu => hp.wordStatement hq ht hu
  · exact hp.plainStatement

theorem aligned_statementWithin (levels : Nat) :
    Aligned a (Stmt.Aligned a) (statementWithin levels) (statementWithin levels) := by
  induction levels with
  | zero => exact aligned_tooDeep
  | succ levels ih => exact (Grammar.aligned_within levels).assignment.statementOf ih

end Parse

end GatewayPolicy
