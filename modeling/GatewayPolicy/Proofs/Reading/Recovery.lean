import GatewayPolicy.Proofs.Reading.Groups
import GatewayPolicy.Proofs.Reading.Limit
import GatewayPolicy.Proofs.Reading.Loops

/-! # Going on behind a malformed statement

  A statement that cannot be read is skipped, and reading goes on behind it. Where that is
  depends on the tokens ahead of the statement only, and on nothing that was read or
  recovered before it failed.

  - `Enclosed` are the tokens in parentheses or square brackets, and `FirstEnd` is the
    first semicolon or brace that is not.
  - `ResumesAt` says how many tokens are skipped.
  - `Parse.recovering_resumes` says that reading goes on there, as it would in a block
    that starts there.
-/

namespace GatewayPolicy

/-! ## Where a statement ends -/

/-- Whether a token can end a statement: a semicolon or a brace. -/
def Token.endsStatement (t : Token) : Bool :=
  t.isAnySymbol [.closeBrace, .openBrace, .semicolon]

/-- Whether some tokens begin with a parenthesis or a square bracket. -/
def beginsInline (ts : List Token) : Bool := ts.head?.any Parse.opensInline

/-- The token at an index stands in a group of parentheses or square brackets. -/
def Enclosed (ts : List Token) (i : Nat) : Prop :=
  ∃ before g after : List Token, ts = before ++ (g ++ after) ∧ IsGroup g ∧
    beginsInline g = true ∧ before.length ≤ i ∧ i < before.length + g.length

/-- The first semicolon or brace that stands in no parentheses or square brackets. -/
structure FirstEnd (ts : List Token) (i : Nat) (t : Token) : Prop where
  here : ts[i]? = some t
  ends : t.endsStatement = true
  outside : ¬ Enclosed ts i
  first : ∀ j u, j < i → ts[j]? = some u → u.endsStatement = true → Enclosed ts j

/-- How many tokens are skipped if the one at an index ends the statement: a semicolon is
    skipped too, and so is the group that a brace opens, but not a brace that closes the block
    around. -/
inductive SkippedWith (ts : List Token) (i : Nat) : Symbol → Nat → Prop where
  | semicolon : SkippedWith ts i .semicolon (i + 1)
  | group {g : List Token} (isGroup : IsGroup g) (begins : g <+: ts.drop i) :
      SkippedWith ts i .openBrace (i + g.length)
  | brace : SkippedWith ts i .closeBrace i

/-- Reading goes on behind so many tokens. -/
def ResumesAt (ts : List Token) (k : Nat) : Prop :=
  ∃ (i : Nat) (t : Token) (s : Symbol), FirstEnd ts i t ∧ t.isSymbol s = true ∧
    SkippedWith ts i s k

theorem FirstEnd.unique {ts : List Token} {i j : Nat} {t u : Token} (h : FirstEnd ts i t)
    (h' : FirstEnd ts j u) : i = j ∧ t = u := by
  rcases Nat.lt_trichotomy i j with hlt | rfl | hlt
  · exact absurd (h'.first i t hlt h.here h.ends) h.outside
  · exact ⟨rfl, Option.some.inj (h.here.symm.trans h'.here)⟩
  · exact absurd (h.first j u hlt h'.here h'.ends) h'.outside

/-- Only one place is there to go on at. -/
theorem ResumesAt.unique {ts : List Token} {k k' : Nat} (h : ResumesAt ts k)
    (h' : ResumesAt ts k') : k = k' := by
  obtain ⟨i, t, s, hfirst, hs, hk⟩ := h
  obtain ⟨i', t', s', hfirst', hs', hk'⟩ := h'
  obtain ⟨rfl, rfl⟩ := hfirst.unique hfirst'
  have hkind := (of_decide_eq_true hs).symm.trans (of_decide_eq_true hs')
  cases hkind
  cases hk with
  | semicolon =>
    cases hk'
    rfl
  | group isGroup begins =>
    cases hk' with
    | group isGroup' begins' => rw [isGroup.eq_of_prefix isGroup' begins begins']
  | brace =>
    cases hk'
    rfl

/-! ## Skipped tokens -/

/-- Tokens that are passed on the way to the end of a statement: single ones, and groups in
    parentheses or square brackets. -/
inductive PassedOver : List Token → Prop where
  | nil : PassedOver []
  | token {t : Token} {ts : List Token} (ends : t.endsStatement = false)
      (inline : Parse.opensInline t = false) (rest : PassedOver ts) : PassedOver (t :: ts)
  | group {g ts : List Token} (group : IsGroup g) (inline : beginsInline g = true)
      (rest : PassedOver ts) : PassedOver (g ++ ts)

theorem Enclosed.append_left {ts : List Token} {i : Nat} (h : Enclosed ts i) (xs : List Token) :
    Enclosed (xs ++ ts) (xs.length + i) := by
  obtain ⟨before, g, after, rfl, hgroup, hinline, hlow, hhigh⟩ := h
  refine ⟨xs ++ before, g, after, ?_, hgroup, hinline, ?_, ?_⟩
  · rw [List.append_assoc]
  · rw [List.length_append]
    omega
  · rw [List.length_append]
    omega

namespace PassedOver

variable {xs ys : List Token} {t : Token}

/-- What could end a statement was passed in parentheses or square brackets only. -/
theorem enclosed (h : PassedOver xs) {j : Nat} {u : Token} (hj : j < xs.length)
    (hu : (xs ++ ys)[j]? = some u) (hends : u.endsStatement = true) : Enclosed (xs ++ ys) j := by
  induction h generalizing j with
  | nil => exact absurd hj (Nat.not_lt_zero j)
  | @token t ts ends _ _ ih =>
    cases j with
    | zero =>
      cases hu
      rw [ends] at hends
      cases hends
    | succ j =>
      have henclosed := ih (Nat.lt_of_succ_lt_succ hj) hu
      have hshift := henclosed.append_left [t]
      rwa [List.length_singleton, Nat.add_comm] at hshift
  | @group g ts group inline _ ih =>
    rw [List.append_assoc] at hu ⊢
    rcases Nat.lt_or_ge j g.length with hlt | hge
    · exact ⟨[], g, ts ++ ys, rfl, group, inline, Nat.zero_le j, by
        rwa [List.length_nil, Nat.zero_add]⟩
    · rw [List.getElem?_append_right hge] at hu
      rw [List.length_append] at hj
      have hshift := (ih (by omega) hu).append_left g
      rwa [Nat.add_sub_cancel' hge] at hshift

theorem not_beginsInline (hends : t.endsStatement = true) {g : List Token}
    (hg : g.head? = some t) : beginsInline g = false := by
  rw [beginsInline, hg, Option.any_some]
  unfold Token.endsStatement Token.isAnySymbol at hends
  simp only [List.any_cons, List.any_nil, Bool.or_false, Bool.or_eq_true] at hends
  unfold Parse.opensInline Token.isAnySymbol
  rcases hends with hs | hs | hs <;>
    · have hkind := of_decide_eq_true hs
      simp only [List.any_cons, List.any_nil, Token.isSymbol, hkind]
      decide

/-- The token behind stands in no parentheses or square brackets: a group that reaches over
    it would begin inside a group that was passed, and end outside of it. -/
theorem not_enclosed (h : PassedOver xs) (hends : t.endsStatement = true) :
    ¬ Enclosed (xs ++ t :: ys) xs.length := by
  rintro ⟨before, g, after, hsplit, hgroup, hinline, hlow, hhigh⟩
  obtain ⟨first, inner, rfl⟩ := List.exists_cons_of_ne_nil hgroup.ne_nil
  induction h generalizing before with
  | nil =>
    obtain rfl := List.eq_nil_of_length_eq_zero (Nat.le_zero.mp hlow)
    cases hsplit
    rw [not_beginsInline hends rfl] at hinline
    cases hinline
  | @token u ts _ inline _ ih =>
    cases before with
    | nil =>
      obtain ⟨rfl, -⟩ := List.cons.inj hsplit
      rw [show beginsInline (u :: inner) = Parse.opensInline u from rfl, inline] at hinline
      cases hinline
    | cons v before =>
      obtain ⟨-, hsplit⟩ := List.cons.inj hsplit
      rw [List.length_cons, List.length_cons] at hlow hhigh
      exact ih before (by omega) hsplit (by omega)
  | @group passed ts group _ _ ih =>
    rw [List.append_assoc] at hsplit
    rw [List.length_append] at hlow hhigh
    rcases List.append_eq_append_iff.mp hsplit with ⟨mid, rfl, hmid⟩ | ⟨mid, rfl, hmid⟩
    · rw [List.length_append] at hlow hhigh
      exact ih mid (by omega) hmid (by omega)
    · rw [List.length_append] at hhigh
      by_cases hnil : mid = []
      · subst hnil
        exact ih [] (Nat.zero_le _) hmid.symm (by rw [List.length_nil] at hhigh ⊢; omega)
      · have hinside := group.length_le_of_begins hnil hgroup hmid
        omega

/-- Behind the tokens that were passed stands the first token that ends the statement. -/
theorem firstEnd (h : PassedOver xs) (hends : t.endsStatement = true) :
    FirstEnd (xs ++ t :: ys) xs.length t where
  here := by rw [List.getElem?_append_right (Nat.le_refl _), Nat.sub_self]; rfl
  ends := hends
  outside := h.not_enclosed hends
  first _ _ hj hu hends' := h.enclosed hj hu hends'

end PassedOver

namespace Parse

variable {c d : Cursor} {n m : Nesting} {u : Unit}

/-- Skipping goes over single tokens and inline groups, to a token that ends a statement or
    to the end of the file. -/
theorem skipToWithin_passedOver {k : Nat} (hk : c.rest.length ≤ k)
    (h : skipToWithin opensInline Token.endsStatement k c n = .ok u d m) :
    m = n ∧ (∃ xs, PassedOver xs ∧ c.Takes xs d) ∧
      (d.peek.isEof = true ∨ d.peek.endsStatement = true) := by
  induction k generalizing c n with
  | zero =>
    have hend : c.peek.isEof = true := by
      rw [Cursor.peek, List.eq_nil_of_length_eq_zero (Nat.le_zero.mp hk)]
      rfl
    cases h
    exact ⟨rfl, ⟨[], .nil, Cursor.takes_nil _⟩, .inl hend⟩
  | succ k ih =>
    obtain ⟨_, _, _, hpeek, h⟩ := bind_eq_ok h
    cases hpeek
    split at h
    · rename_i hstop
      cases h
      exact ⟨rfl, ⟨[], .nil, Cursor.takes_nil _⟩, Bool.or_eq_true_iff.mp hstop⟩
    · rename_i hgo
      obtain ⟨heof, hends⟩ := Bool.or_eq_false_iff.mp (Bool.eq_false_iff.mpr hgo)
      split at h
      · rename_i hinline
        obtain ⟨span, c', n', hskip, hbehind⟩ := bind_eq_ok h
        obtain ⟨rfl, g, hgroup, htakes, first, hfirst, -⟩ := skipGroup_eq_ok hskip
        have hshorter := (Strict.passes hskip).length_lt
        obtain ⟨hm, ⟨xs, hxs, hrest⟩, hstop⟩ := ih (by omega) hbehind
        refine ⟨hm, ⟨g ++ xs, .group hgroup ?_ hxs, htakes.append hrest⟩, hstop⟩
        have hhead : c.peek = first := by
          rw [Cursor.peek, htakes.rest, List.head?_append, hfirst]
          rfl
        rw [beginsInline, hfirst, ← hhead]
        exact hinline
      · rename_i hinline
        obtain ⟨t, c', n', hadvance, h⟩ := bind_eq_ok h
        cases hadvance
        have hshorter := (Cursor.passes_next heof).length_lt
        obtain ⟨hm, ⟨xs, hxs, hrest⟩, hstop⟩ := ih (by omega) h
        have htakes := (Cursor.takes_next heof).append hrest
        exact ⟨hm, ⟨c.peek :: xs, .token hends (Bool.eq_false_iff.mpr hinline) hxs, htakes⟩, hstop⟩

/-- Behind tokens that were passed, a symbol ends the statement. -/
theorem resumes_of_passedOver {c' : Cursor} {s : Symbol} {xs ys : List Token}
    (hxs : PassedOver xs) (hto : c.Takes xs c') (hs : c'.peek.isSymbol s = true)
    (hends : c'.peek.endsStatement = true) (hys : c'.Takes ys d)
    (hskipped : SkippedWith c.rest xs.length s (xs.length + ys.length)) :
    ∃ k, ResumesAt c.rest k ∧ c.Takes (c.rest.take k) d := by
  have hnext : c'.rest = c'.peek :: c'.next.rest :=
    (Cursor.takes_next (Token.not_eof_of_isSymbol hs)).rest
  have hfirst : FirstEnd c.rest xs.length c'.peek := by
    rw [hto.rest, hnext]
    exact hxs.firstEnd hends
  have hall := hto.append hys
  refine ⟨_, ⟨_, _, s, hfirst, hs, hskipped⟩, ?_⟩
  rwa [← List.length_append, hall.rest, List.take_left]

/-- A statement is skipped to the place where reading goes on. -/
theorem skipStatement_resumes (h : skipStatement c n = .ok u d m) :
    m = n ∧ ∃ k, ResumesAt c.rest k ∧ c.Takes (c.rest.take k) d := by
  obtain ⟨_, c', n', hskip, hbehind⟩ := bind_eq_ok h
  obtain ⟨rfl, ⟨xs, hxs, hto⟩, hstop⟩ := skipToWithin_passedOver (Nat.le_refl _) hskip
  obtain ⟨_, _, _, hpeek, hend⟩ := bind_eq_ok hbehind
  cases hpeek
  have hends : ∀ {s}, c'.peek.isSymbol s = true → c'.peek.endsStatement = true := by
    intro s hs
    rcases hstop with heof | hends
    · rw [Token.not_eof_of_isSymbol hs] at heof
      cases heof
    · exact hends
  split at hend
  · rename_i hbrace
    cases hend
    exact ⟨rfl, resumes_of_passedOver hxs hto hbrace (hends hbrace) (Cursor.takes_nil _) .brace⟩
  · split at hend
    · rename_i hbrace
      obtain ⟨span, _, _, hgroup, hdone⟩ := bind_eq_ok hend
      cases hdone
      obtain ⟨rfl, g, hg, htakes, -⟩ := skipGroup_eq_ok hgroup
      have hbegins : g <+: c.rest.drop xs.length := by
        rw [hto.rest, List.drop_left, htakes.rest]
        exact List.prefix_append _ _
      exact ⟨rfl, resumes_of_passedOver hxs hto hbrace (hends hbrace) htakes (.group hg hbegins)⟩
    · split at hend
      · rename_i hsemicolon
        obtain ⟨t, _, _, hadvance, hdone⟩ := bind_eq_ok hend
        cases hadvance
        cases hdone
        have htakes := Cursor.takes_next (Token.not_eof_of_isSymbol hsemicolon)
        exact ⟨rfl,
          resumes_of_passedOver hxs hto hsemicolon (hends hsemicolon) htakes .semicolon⟩
      · cases hend

/-! ## Reading on -/

/-- A statement that fails without a mark is skipped and kept as malformed. -/
theorem recovering_of_fail {q : Parse Stmt} {m' : Nesting} {e : SyntaxError}
    (hfail : q c n = .fail e m) (hwithin : m.Within) (hskip : skipStatement c m = .ok u d m') :
    recovering q c n = .ok (.malformed e.fault (if d.rest.length = c.rest.length
      then c.peek.span else c.peek.span.cover d.last)) d m' := by
  have hobserve : observe q c n = .ok (.error e) c m := by
    unfold observe
    rw [hfail]
  show Parse.bind (observe q) _ c n = _
  unfold Parse.bind
  rw [hobserve]
  show Parse.bind exceeded _ c m = _
  unfold Parse.bind exceeded
  rw [hwithin]
  show Parse.bind skipStatement _ c m = _
  unfold Parse.bind
  rw [hskip]
  rfl

/-- Behind its first statement, a block is read like one that starts there. -/
theorem statements_of_recovering {q : Parse Stmt} (hq : Delimits q) {s : Stmt}
    (hbrace : c.peek.isSymbol .closeBrace = false) (heof : c.peek.isEof = false)
    (h : recovering q c n = .ok s d m) (opening : Span) :
    bounded (statementsWithin opening q) c n =
      (do return s :: (← bounded (statementsWithin opening q)) : Parse (List Stmt)) d m := by
  have hturn : statementsTurn opening q () c n = .ok (.again () (s :: ·)) d m := by
    show (if c.peek.isSymbol .closeBrace = true then _ else _ : Parse _) c n = _
    rw [if_neg (Bool.eq_false_iff.mp hbrace)]
    show (if c.peek.isEof = true then _ else _ : Parse _) c n = _
    rw [if_neg (Bool.eq_false_iff.mp heof)]
    show Parse.bind (recovering q) _ c n = _
    unfold Parse.bind
    rw [h]
    rfl
  refine (congrFun (congrFun ((statements_repeats hq opening).unfolds ()) c) n).trans ?_
  show Parse.bind (statementsTurn opening q ()) _ c n = _
  unfold Parse.bind
  rw [hturn]
  rfl

/-- Where a statement fails without being nested too deeply and can be skipped, one malformed
    statement with its fault stands in its place. Reading goes on behind the first semicolon
    or group in braces outside of parentheses and square brackets, or before the first such
    closing brace, and in the same state; the rest of a block is read as if it started there. -/
theorem recovering_resumes (levels : Nat) {m' : Nesting} {e : SyntaxError}
    (hfail : statementWithin levels c n = .fail e m) (hwithin : m.Within)
    (hskip : skipStatement c m = .ok u d m') :
    ∃ span,
      recovering (statementWithin levels) c n = .ok (.malformed e.fault span) d n ∧
      (∃ k, ResumesAt c.rest k) ∧ (∀ k, ResumesAt c.rest k → c.Takes (c.rest.take k) d) ∧
      ∀ opening, c.peek.isSymbol .closeBrace = false →
        bounded (statementsWithin opening (statementWithin levels)) c n =
          (do return .malformed e.fault span ::
            (← bounded (statementsWithin opening (statementWithin levels))) :
              Parse (List Stmt)) d n := by
  have hloosens := (CodeGrammar.loosens_below (CodeGrammar.within 0) levels).statement
  have hnesting : m = n := by
    have heq := hloosens.nesting_eq (c := c) (n := n)
    rw [show (CodeGrammar.within levels).statement c n = _ from hfail] at heq
    exact heq hwithin
  subst hnesting
  obtain ⟨rfl, k, hk, htakes⟩ := skipStatement_resumes hskip
  have hrecovering := recovering_of_fail hfail hwithin hskip
  refine ⟨_, hrecovering, ⟨k, hk⟩, ?_, ?_⟩
  · intro k' hk'
    rw [hk'.unique hk]
    exact htakes
  · intro opening hbrace
    exact statements_of_recovering (delimits_statementWithin levels) hbrace
      (not_eof_of_skipStatement hskip) hrecovering opening

/-- The line `([;];));}`: semicolons in brackets, a parenthesis too many, and the end of the
    block behind the statement. -/
def brokenLine : Cursor := lineOf [.openParen, .openBracket, .semicolon, .closeBracket, .semicolon,
  .closeParen, .closeParen, .semicolon, .closeBrace]

/-- Reading fails at the first semicolon and goes on behind the third. -/
theorem recovering_resumes_nested :
    ∃ e d, statementWithin 8 brokenLine { limit := 8 } = .fail e { limit := 8 } ∧
      e.span.column = 3 ∧ skipStatement brokenLine { limit := 8 } = .ok () d { limit := 8 } ∧
      ResumesAt brokenLine.rest 8 ∧ ∃ span,
        recovering (statementWithin 8) brokenLine { limit := 8 } =
          .ok (.malformed e.fault span) d { limit := 8 } := by
  have hfail : statementWithin 8 brokenLine { limit := 8 } =
      .fail ⟨.expected .expression (some ";"), ⟨2, 3, 1, 3⟩⟩ { limit := 8 } := rfl
  have hskip : skipStatement brokenLine { limit := 8 } =
      .ok () ⟨⟨7, 8, 1, 8⟩, brokenLine.rest.drop 8, brokenLine.stop⟩ { limit := 8 } := rfl
  obtain ⟨span, hrecovering, ⟨k, hk⟩, htakes, -⟩ := recovering_resumes 8 hfail rfl hskip
  have hlength := congrArg List.length (htakes k hk).rest
  rw [List.length_append, List.length_take, List.length_drop,
    show brokenLine.rest.length = 9 from rfl] at hlength
  have height : k = 8 := by omega
  exact ⟨_, _, hfail, rfl, hskip, height ▸ hk, span, hrecovering⟩

end Parse

end GatewayPolicy
