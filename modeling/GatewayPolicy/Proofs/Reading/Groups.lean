import GatewayPolicy.Proofs.Reading.Turns

/-! # Bracketed groups

  A group is skipped with a stack of the symbols that still have to close it. Here it is
  said without a stack which tokens form a group: brackets of three kinds nest, and each
  of them is closed by a bracket of its own kind.

  - `Matched` are tokens whose brackets match, and `IsGroup` are matched tokens between an
    opening bracket and the one that closes it.
  - `GroupFault` says what is wrong with tokens that begin no group: the first bracket that
    closes another one than is open there, or else that a bracket is left open.
  - `Parse.skipGroup_exact` says that skipping takes a group just where there is one.
-/

namespace GatewayPolicy

/-! ## Brackets -/

/-- Whether a token is a closing bracket. -/
def Token.isClosing (t : Token) : Bool :=
  match t.kind with
  | .symbol s => s.isClosing
  | _ => false

/-- A bracket that closes another opens no group, and the other closes none. -/
theorem Symbol.isClosing_of_closing {s close : Symbol} (h : s.closing? = some close) :
    close.isClosing = true ∧ close.closing? = none ∧ s.isClosing = false := by
  cases s <;> cases h <;> decide

namespace Token

variable {t : Token} {s : Symbol}

theorem isOpening_of_closing (h : t.closing? = some s) : t.isOpening = true := by
  rw [isOpening, h]
  rfl

theorem not_isClosing_of_closing (h : t.closing? = some s) : t.isClosing = false := by
  unfold closing? at h
  split at h
  · rename_i hkind
    rw [isClosing, hkind]
    exact (Symbol.isClosing_of_closing h).2.2
  · cases h

/-- The symbol that closes what a token opens. -/
theorem isClosing_symbol (h : t.closing? = some s) : s.isClosing = true ∧ s.closing? = none := by
  unfold closing? at h
  split at h
  · obtain ⟨hclosing, hnone, -⟩ := Symbol.isClosing_of_closing h
    exact ⟨hclosing, hnone⟩
  · cases h

theorem isClosing_eq (h : t.isSymbol s = true) : t.isClosing = s.isClosing := by
  rw [isClosing, of_decide_eq_true h]

theorem isOpening_eq (h : t.isSymbol s = true) : t.isOpening = s.closing?.isSome := by
  rw [isOpening, closing?, of_decide_eq_true h]

end Token

/-! ## Matched tokens -/

/-- Tokens whose brackets match: each opening bracket has the bracket that closes it, and
    the brackets between the two match as well. -/
inductive Matched : List Token → Prop where
  | nil : Matched []
  | plain {t : Token} {ts : List Token} (opens : t.isOpening = false)
      (closes : t.isClosing = false) (rest : Matched ts) : Matched (t :: ts)
  | group {opening closing : Token} {s : Symbol} {inner ts : List Token}
      (opens : opening.closing? = some s) (closes : closing.isSymbol s = true)
      (inside : Matched inner) (rest : Matched ts) :
      Matched (opening :: (inner ++ closing :: ts))

/-- Matched tokens between an opening bracket and the bracket that closes it. -/
inductive IsGroup : List Token → Prop where
  | enclosed {opening closing : Token} {s : Symbol} {inner : List Token}
      (opens : opening.closing? = some s) (closes : closing.isSymbol s = true)
      (inside : Matched inner) : IsGroup (opening :: (inner ++ [closing]))

theorem Matched.append {xs ys : List Token} (h : Matched xs) (h' : Matched ys) :
    Matched (xs ++ ys) := by
  induction h with
  | nil => exact h'
  | plain opens closes _ ih => exact .plain opens closes ih
  | group opens closes inside _ _ ih =>
    rw [List.cons_append, List.append_assoc, List.cons_append]
    exact .group opens closes inside ih

theorem IsGroup.matched {g : List Token} (h : IsGroup g) : Matched g := by
  cases h with
  | enclosed opens closes inside => exact .group opens closes inside .nil

/-! ## Counting brackets

  Matched tokens have as many opening as closing brackets, and no end of them has more of
  the opening ones. An end of a group has fewer, so groups do not overlap. -/

/-- How many opening brackets there are. -/
def openings (ts : List Token) : Nat := ts.countP Token.isOpening

/-- How many closing brackets there are. -/
def closings (ts : List Token) : Nat := ts.countP Token.isClosing

@[simp] theorem openings_nil : openings [] = 0 := rfl

@[simp] theorem closings_nil : closings [] = 0 := rfl

@[simp] theorem openings_append (xs ys : List Token) :
    openings (xs ++ ys) = openings xs + openings ys := List.countP_append

@[simp] theorem closings_append (xs ys : List Token) :
    closings (xs ++ ys) = closings xs + closings ys := List.countP_append

section Counting

variable {t : Token} {s : Symbol} (ts : List Token)

theorem counts_cons_plain (hopens : t.isOpening = false) (hcloses : t.isClosing = false) :
    openings (t :: ts) = openings ts ∧ closings (t :: ts) = closings ts :=
  ⟨List.countP_cons_of_neg (by rw [hopens]; exact Bool.false_ne_true),
    List.countP_cons_of_neg (by rw [hcloses]; exact Bool.false_ne_true)⟩

theorem counts_cons_opening (h : t.closing? = some s) :
    openings (t :: ts) = openings ts + 1 ∧ closings (t :: ts) = closings ts :=
  ⟨List.countP_cons_of_pos (Token.isOpening_of_closing h),
    List.countP_cons_of_neg (by rw [Token.not_isClosing_of_closing h]; exact Bool.false_ne_true)⟩

theorem counts_cons_closing {opening : Token} (h : opening.closing? = some s)
    (hs : t.isSymbol s = true) :
    openings (t :: ts) = openings ts ∧ closings (t :: ts) = closings ts + 1 := by
  obtain ⟨hclosing, hnone⟩ := Token.isClosing_symbol h
  refine ⟨List.countP_cons_of_neg ?_, List.countP_cons_of_pos ?_⟩
  · rw [Token.isOpening_eq hs, hnone]
    exact Bool.false_ne_true
  · rw [Token.isClosing_eq hs, hclosing]

end Counting

theorem Matched.counts_eq {ts : List Token} (h : Matched ts) : openings ts = closings ts := by
  induction h with
  | nil => rfl
  | plain opens closes _ ih =>
    obtain ⟨hopenings, hclosings⟩ := counts_cons_plain _ opens closes
    rw [hopenings, hclosings, ih]
  | @group opening closing s inner ts opens closes _ _ ihinside ihrest =>
    obtain ⟨hopenings, hclosings⟩ := counts_cons_opening (inner ++ closing :: ts) opens
    obtain ⟨hopenings', hclosings'⟩ := counts_cons_closing ts opens closes
    rw [hopenings, hclosings, openings_append, closings_append, hopenings', hclosings']
    omega

/-- An end of matched tokens has no more opening than closing brackets. -/
theorem Matched.counts_le {xs ys : List Token} (h : Matched (xs ++ ys)) :
    openings ys ≤ closings ys := by
  generalize hts : xs ++ ys = ts at h
  induction h generalizing xs ys with
  | nil =>
    obtain ⟨-, rfl⟩ := List.append_eq_nil_iff.mp hts
    exact Nat.le_refl _
  | @plain t ts opens closes rest ih =>
    rcases List.append_eq_cons_iff.mp hts with ⟨-, rfl⟩ | ⟨xs', -, hts'⟩
    · exact Nat.le_of_eq (Matched.plain opens closes rest).counts_eq
    · exact ih hts'.symm
  | @group opening closing s inner ts opens closes inside rest ihinside ihrest =>
    rcases List.append_eq_cons_iff.mp hts with ⟨-, rfl⟩ | ⟨xs', -, hts'⟩
    · exact Nat.le_of_eq (Matched.group opens closes inside rest).counts_eq
    · -- the end begins inside the group, at the bracket that closes it, or behind it
      rcases List.append_eq_append_iff.mp hts' with ⟨behind, rfl, hbehind⟩ | ⟨within, rfl, rfl⟩
      · rcases List.cons_eq_append_iff.mp hbehind with ⟨-, rfl⟩ | ⟨ts', -, rfl⟩
        · obtain ⟨hopenings, hclosings⟩ := counts_cons_closing ts opens closes
          have heq := rest.counts_eq
          omega
        · exact ihrest rfl
      · obtain ⟨hopenings, hclosings⟩ := counts_cons_closing ts opens closes
        have hle := @ihinside xs' within rfl
        have heq := rest.counts_eq
        rw [openings_append, closings_append, hopenings, hclosings]
        omega

namespace IsGroup

variable {g g' xs ys : List Token}

/-- Behind its first token, each end of a group has fewer opening brackets. -/
theorem counts_lt (h : IsGroup (xs ++ ys)) (hxs : xs ≠ []) (hys : ys ≠ []) :
    openings ys < closings ys := by
  generalize hg : xs ++ ys = g at h
  cases h with
  | @enclosed opening closing s inner opens closes inside =>
    obtain ⟨hopenings, hclosings⟩ := counts_cons_closing [] opens closes
    rcases List.append_eq_cons_iff.mp hg with ⟨rfl, -⟩ | ⟨xs', -, hinner⟩
    · exact absurd rfl hxs
    · rcases List.append_eq_append_iff.mp hinner with ⟨behind, rfl, hbehind⟩ | ⟨within, rfl, rfl⟩
      · rcases List.cons_eq_append_iff.mp hbehind with ⟨-, rfl⟩ | ⟨ts', -, hnil⟩
        · rw [hopenings, hclosings]
          exact Nat.one_pos
        · exact absurd (List.append_eq_nil_iff.mp hnil.symm).2 hys
      · have hle := inside.counts_le
        rw [openings_append, closings_append, hopenings, hclosings]
        exact Nat.lt_succ_of_le hle

/-- No group ends inside another one that begins before it or with it. -/
theorem not_overlap {before shared after : List Token} (h : IsGroup (before ++ shared))
    (h' : IsGroup (shared ++ after)) (hshared : shared ≠ []) : before = [] ∨ after = [] := by
  by_contra hne
  obtain ⟨hbefore, hafter⟩ := not_or.mp hne
  have hend := h.counts_lt hbefore hshared
  have hbegin := h'.counts_lt hshared hafter
  have heq := h'.matched.counts_eq
  rw [openings_append, closings_append] at heq
  omega

theorem ne_nil (h : IsGroup g) : g ≠ [] := by
  cases h
  exact List.cons_ne_nil _ _

/-- Tokens begin with one group at most. -/
theorem eq_of_prefix {ts : List Token} (h : IsGroup g) (h' : IsGroup g') (hg : g <+: ts)
    (hg' : g' <+: ts) : g = g' := by
  have hproper : ∀ {a b : List Token}, IsGroup a → IsGroup b → a <+: b → a = b := by
    rintro a _ ha hb ⟨after, rfl⟩
    have heq := hb.matched.counts_eq
    have heq' := ha.matched.counts_eq
    by_cases hafter : after = []
    · rw [hafter, List.append_nil]
    · have hlt := hb.counts_lt ha.ne_nil hafter
      rw [openings_append, closings_append] at heq
      omega
  rcases List.prefix_or_prefix_of_prefix hg hg' with hle | hle
  · exact hproper h h' hle
  · exact (hproper h' h hle).symm

/-- A group that begins inside another one ends inside it. -/
theorem length_le_of_begins {before mid after rest : List Token} (h : IsGroup (before ++ mid))
    (hmid : mid ≠ []) (hg : IsGroup g) (hsplit : g ++ after = mid ++ rest) :
    g.length ≤ mid.length := by
  rcases List.append_eq_append_iff.mp hsplit with ⟨behind, rfl, -⟩ | ⟨behind, rfl, -⟩
  · rw [List.length_append]
    exact Nat.le_add_right _ _
  · rcases h.not_overlap hg hmid with rfl | rfl
    · have hsame := h.eq_of_prefix hg ⟨behind, rfl⟩ List.prefix_rfl
      exact Nat.le_of_eq (congrArg List.length hsame).symm
    · exact Nat.le_of_eq (congrArg List.length (List.append_nil mid))

end IsGroup

/-! ## What is wrong with brackets -/

/-- Behind these tokens a bracket is open that `s` closes, and the brackets behind it match. -/
def InnermostOpen (ts : List Token) (s : Symbol) : Prop :=
  ∃ (before : List Token) (opening : Token) (inner : List Token),
    ts = before ++ opening :: inner ∧ opening.closing? = some s ∧ Matched inner

/-- A closing bracket behind some tokens that closes another bracket than the one which is
    open there, the one that `s` closes. -/
structure Mismatched (before : List Token) (t : Token) (s : Symbol) : Prop where
  isOpen : InnermostOpen before s
  closes : t.isClosing = true
  other : t.isSymbol s = false

/-- None of the closing brackets among some tokens closes another bracket than is open. -/
def Consistent (ts : List Token) : Prop :=
  ∀ before t after s, ts = before ++ t :: after → ¬ Mismatched before t s

/-- Why no group begins at `opening`, the first of some tokens: it is the first closing
    bracket that is mismatched, or there is none and a bracket is never closed. -/
inductive GroupFault (opening : Token) (ts : List Token) : SyntaxError → Prop where
  | mismatched {before : List Token} {t : Token} {after : List Token} {s : Symbol}
      (place : ts = before ++ t :: after) (mismatch : Mismatched before t s)
      (first : Consistent before) :
      GroupFault opening ts { fault := .mismatched t.text s, span := t.span }
  | unclosed {s : Symbol} (consistent : Consistent ts) (isOpen : InnermostOpen ts s) :
      GroupFault opening ts { fault := .unclosed opening.text s, span := opening.span }

/-- Only one bracket is open innermost. -/
theorem InnermostOpen.unique {ts : List Token} {s s' : Symbol} (h : InnermostOpen ts s)
    (h' : InnermostOpen ts s') : s = s' := by
  -- a bracket that is open behind another would be one too many in matched tokens
  have hlater : ∀ {before : List Token} {opening : Token} {inner : List Token} {s : Symbol},
      opening.closing? = some s → Matched inner → ¬ Matched (before ++ opening :: inner) := by
    intro before opening inner s hopens hinner hall
    have hle := hall.counts_le
    obtain ⟨hopenings, hclosings⟩ := counts_cons_opening inner hopens
    have heq := hinner.counts_eq
    omega
  obtain ⟨before, opening, inner, rfl, hopens, hinner⟩ := h
  obtain ⟨before', opening', inner', hts, hopens', hinner'⟩ := h'
  rcases List.append_eq_append_iff.mp hts with ⟨mid, -, hmid⟩ | ⟨mid, -, hmid⟩
  · rcases List.cons_eq_append_iff.mp hmid with ⟨-, hsame⟩ | ⟨mid', -, rfl⟩
    · cases hsame
      exact Option.some.inj (hopens.symm.trans hopens')
    · exact absurd hinner (hlater hopens' hinner')
  · rcases List.cons_eq_append_iff.mp hmid with ⟨-, hsame⟩ | ⟨mid', -, rfl⟩
    · cases hsame
      exact Option.some.inj (hopens.symm.trans hopens')
    · exact absurd hinner' (hlater hopens hinner)

theorem Consistent.concat {ts : List Token} {t : Token} (h : Consistent ts)
    (ht : ∀ s, ¬ Mismatched ts t s) : Consistent (ts ++ [t]) := by
  intro before u after s hts
  rcases List.append_eq_append_iff.mp hts with ⟨mid, rfl, hmid⟩ | ⟨mid, rfl, hmid⟩
  · rcases List.cons_eq_append_iff.mp hmid with ⟨rfl, hsame⟩ | ⟨mid', -, hnil⟩
    · cases hsame
      rw [List.append_nil]
      exact ht s
    · cases (List.append_eq_nil_iff.mp hnil.symm).2
  · rcases List.cons_eq_append_iff.mp hmid with ⟨rfl, hsame⟩ | ⟨mid', rfl, rfl⟩
    · cases hsame
      rw [List.append_nil] at ht
      exact ht s
    · exact h before u mid' s rfl

/-! ## Closing a group -/

/-- Behind these tokens, all of which belong to one group that is not at its end, brackets
    are open that these symbols close, the innermost first. -/
inductive Unfinished : List Symbol → List Token → Prop where
  | start : Unfinished [] []
  | within {s : Symbol} {ss : List Symbol} {ts inner : List Token} {opening : Token}
      (outside : Unfinished ss ts) (opens : opening.closing? = some s) (inside : Matched inner) :
      Unfinished (s :: ss) (ts ++ opening :: inner)

namespace Unfinished

variable {s : Symbol} {ss : List Symbol} {ts : List Token} {t : Token}

theorem innermostOpen (h : Unfinished (s :: ss) ts) : InnermostOpen ts s := by
  cases h with
  | within _ opens inside => exact ⟨_, _, _, rfl, opens, inside⟩

theorem isClosing (h : Unfinished (s :: ss) ts) : s.isClosing = true ∧ s.closing? = none := by
  cases h with
  | within _ opens _ => exact Token.isClosing_symbol opens

theorem plain (h : Unfinished (s :: ss) ts) (hopens : t.isOpening = false)
    (hcloses : t.isClosing = false) : Unfinished (s :: ss) (ts ++ [t]) := by
  cases h with
  | within outside opens inside =>
    rw [List.append_assoc, List.cons_append]
    exact .within outside opens (inside.append (.plain hopens hcloses .nil))

/-- The bracket that closes the innermost group leaves the group around it open. -/
theorem closing {s' : Symbol} (h : Unfinished (s :: s' :: ss) ts) (ht : t.isSymbol s = true) :
    Unfinished (s' :: ss) (ts ++ [t]) := by
  cases h with
  | within outside opens inside =>
    cases outside with
    | within outside' opens' inside' =>
      rw [List.append_assoc, List.append_assoc, List.cons_append, List.cons_append]
      exact .within outside' opens' (inside'.append (.group opens ht inside .nil))

/-- The bracket that closes the outermost group ends it. -/
theorem isGroup (h : Unfinished [s] ts) (ht : t.isSymbol s = true) : IsGroup (ts ++ [t]) := by
  cases h with
  | within outside opens inside =>
    cases outside
    exact .enclosed opens ht inside

end Unfinished

/-- What the search for the end of a group comes to: the group that some tokens begin with,
    or what is wrong with them. -/
inductive GroupSearch (opening : Token) (ts : List Token) :
    Except SyntaxError (Span × List Token) → Prop where
  | found {g rest : List Token} {last : Token} (split : ts = g ++ rest) (group : IsGroup g)
      (ends : g.getLast? = some last) : GroupSearch opening ts (.ok (last.span, rest))
  | failed {e : SyntaxError} (fault : GroupFault opening ts e) :
      GroupSearch opening ts (.error e)

namespace Parse

section Close

variable {opening t : Token} {s close : Symbol} {outer : List Symbol}

theorem closeGroup_nil (opening : Token) (last : Span) (ts : List Token) :
    closeGroup opening [] last ts = .ok (last, ts) := by
  rw [closeGroup]

theorem closesBehind_opening (h : t.closing? = some s) :
    closesBehind close outer t = .ok (s :: close :: outer) := by
  unfold Token.closing? at h
  split at h
  · rename_i hkind
    simp only [closesBehind, hkind, h]
  · cases h

theorem closesBehind_closing (hclose : close.closing? = none) (h : t.isSymbol close = true) :
    closesBehind close outer t = .ok outer := by
  simp only [closesBehind, of_decide_eq_true h, hclose, if_pos]

theorem closesBehind_mismatched (hclosing : t.isClosing = true) (h : t.isSymbol close = false) :
    closesBehind close outer t =
      .error { fault := .mismatched t.text close, span := t.span } := by
  unfold Token.isClosing at hclosing
  split at hclosing
  · rename_i s hkind
    have hnone : s.closing? = none := by
      cases s <;> first | rfl | cases hclosing
    have hne : s ≠ close := by
      rintro rfl
      exact of_decide_eq_false h hkind
    simp only [closesBehind, hkind, hnone, if_neg hne, if_pos hclosing]
  · cases hclosing

theorem closesBehind_plain (hclose : close.isClosing = true) (hopens : t.isOpening = false)
    (hcloses : t.isClosing = false) : closesBehind close outer t = .ok (close :: outer) := by
  unfold closesBehind
  split
  · rename_i s hkind
    have hsymbol : t.isSymbol s = true := decide_eq_true hkind
    rw [Token.isOpening_eq hsymbol, Option.isSome_eq_false_iff, Option.isNone_iff_eq_none] at hopens
    rw [Token.isClosing_eq hsymbol] at hcloses
    have hne : s ≠ close := by
      rintro rfl
      rw [hclose] at hcloses
      cases hcloses
    simp only [hopens, if_neg hne, hcloses, Bool.false_eq_true, if_false]
  · rfl

/-- The search goes on until the group that was begun is at its end, or a bracket is wrong.
    Induction on the tokens ahead: the stack holds the brackets that are open behind those
    that were passed. -/
theorem closeGroup_search {before : List Token} (hopen : Unfinished (close :: outer) before)
    (hconsistent : Consistent before) (last : Span) (ts : List Token) :
    GroupSearch opening (before ++ ts) (closeGroup opening (close :: outer) last ts) := by
  induction ts generalizing close outer before last with
  | nil =>
    rw [List.append_nil]
    exact .failed (.unclosed hconsistent hopen.innermostOpen)
  | cons t ts ih =>
    obtain ⟨hclose, hnone⟩ := hopen.isClosing
    have hsplit : before ++ t :: ts = before ++ [t] ++ ts := by rw [List.append_assoc]; rfl
    rw [closeGroup_cons]
    by_cases hcloses : t.isClosing = true
    · by_cases hsame : t.isSymbol close = true
      · rw [closesBehind_closing hnone hsame, hsplit]
        cases outer with
        | nil =>
          show GroupSearch opening _ (closeGroup opening [] t.span ts)
          rw [closeGroup_nil]
          exact .found rfl (hopen.isGroup hsame) List.getLast?_concat
        | cons close' outer =>
          refine ih (hopen.closing hsame) (hconsistent.concat ?_) t.span
          intro s hmismatch
          have hs := hopen.innermostOpen.unique hmismatch.isOpen
          exact Bool.eq_false_iff.mp hmismatch.other (hs ▸ hsame)
      · have hother := Bool.eq_false_iff.mpr hsame
        rw [closesBehind_mismatched hcloses hother]
        exact .failed (.mismatched rfl ⟨hopen.innermostOpen, hcloses, hother⟩ hconsistent)
    · have hstill : Consistent (before ++ [t]) :=
        hconsistent.concat fun _ hmismatch => hcloses hmismatch.closes
      rw [hsplit]
      cases hopens : t.closing? with
      | some s =>
        rw [closesBehind_opening hopens]
        exact ih (.within hopen hopens .nil) hstill t.span
      | none =>
        have hplain : t.isOpening = false := by rw [Token.isOpening, hopens]; rfl
        have hcloses := Bool.eq_false_iff.mpr hcloses
        rw [closesBehind_plain hclose hplain hcloses]
        exact ih (hopen.plain hplain hcloses) hstill t.span

/-- Matched tokens leave the search where it was. -/
theorem closeGroup_matched {inner : List Token} (h : Matched inner)
    (hclose : close.isClosing = true) (last : Span) (ts : List Token) :
    ∃ last', closeGroup opening (close :: outer) last (inner ++ ts) =
      closeGroup opening (close :: outer) last' ts := by
  induction h generalizing close outer last ts with
  | nil => exact ⟨last, rfl⟩
  | @plain t _ opens closes _ ih =>
    obtain ⟨last', hrest⟩ := ih hclose t.span ts
    refine ⟨last', ?_⟩
    rw [List.cons_append, closeGroup_cons, closesBehind_plain hclose opens closes]
    exact hrest
  | @group first closing s inner rest opens closes _ _ ihinside ihrest =>
    obtain ⟨hs, hnone⟩ := Token.isClosing_symbol opens
    obtain ⟨mid, hinside⟩ := @ihinside s (close :: outer) hs first.span (closing :: (rest ++ ts))
    obtain ⟨last', hrest⟩ := ihrest hclose closing.span ts
    refine ⟨last', ?_⟩
    rw [List.cons_append, List.append_assoc, List.cons_append, closeGroup_cons,
      closesBehind_opening opens]
    refine hinside.trans ?_
    rw [closeGroup_cons, closesBehind_closing hnone closes]
    exact hrest

end Close

/-! ## Skipping a group -/

section Skip

variable {c d : Cursor} {n m : Nesting} {close : Symbol} {g : List Token}

theorem search_skipGroup (hopen : c.peek.closing? = some close) :
    GroupSearch c.peek c.rest (closeGroup c.peek [close] c.peek.span c.next.rest) := by
  have hrest : c.rest = [c.peek] ++ c.next.rest :=
    (Cursor.takes_next (Token.not_eof_of_closing hopen)).rest
  have hfirst : Consistent ([] ++ [c.peek]) := by
    refine Consistent.concat ?_ ?_
    · intro before t after s hnil
      cases (List.append_eq_nil_iff.mp hnil.symm).2
    · intro s hmismatch
      exact Bool.eq_false_iff.mp (Token.not_isClosing_of_closing hopen) hmismatch.closes
  rw [hrest]
  exact closeGroup_search (.within .start hopen .nil) hfirst _ _

/-- What is skipped is a group, from its first token to its last. -/
theorem skipGroup_eq_ok {span : Span} (h : skipGroup c n = .ok span d m) :
    m = n ∧ ∃ g, IsGroup g ∧ c.Takes g d ∧
      ∃ first ∈ g.head?, ∃ last ∈ g.getLast?, span = first.span.cover last.span := by
  unfold skipGroup at h
  dsimp only at h
  split at h
  · cases h
  · rename_i close hopen
    have hsearch := search_skipGroup hopen
    split at h
    · rename_i last rest hclose
      rw [hclose] at hsearch
      cases h
      refine ⟨rfl, ?_⟩
      cases hsearch with
      | @found g _ last split group ends =>
        have hhead : c.peek ∈ g.head? := by
          obtain ⟨t, ts, rfl⟩ := List.exists_cons_of_ne_nil group.ne_nil
          rw [Cursor.peek, split]
          rfl
        refine ⟨g, group, ⟨split, ?_, rfl⟩, c.peek, hhead, last, ends, rfl⟩
        rw [ends]
        rfl
    · cases h

/-- A group that is next is skipped. -/
theorem exists_skipGroup (n : Nesting) (hgroup : IsGroup g) (hg : g <+: c.rest) :
    ∃ span d, skipGroup c n = .ok span d n := by
  obtain ⟨last, rest, stop⟩ := c
  obtain ⟨after, rfl⟩ := hg
  cases hgroup with
  | @enclosed opening closing s inner opens closes inside =>
    obtain ⟨hs, hnone⟩ := Token.isClosing_symbol opens
    obtain ⟨last', hinside⟩ := @closeGroup_matched opening s [] inner inside hs opening.span
      (closing :: after)
    rw [closeGroup_cons, closesBehind_closing hnone closes] at hinside
    have hclose : closeGroup opening [s] opening.span (inner ++ [closing] ++ after) =
        .ok (closing.span, after) := by
      rw [List.append_assoc]
      exact hinside.trans (closeGroup_nil _ _ _)
    unfold skipGroup
    simp only [Cursor.peek, Cursor.next, List.cons_append, List.head?_cons, Option.getD_some,
      opens, hclose]
    exact ⟨_, _, rfl⟩

/-- Where no group is next, skipping one fails because of what is wrong with the brackets. -/
theorem skipGroup_eq_fail (n : Nesting) (hopen : c.peek.closing? = some close)
    (hnone : ¬ ∃ g, IsGroup g ∧ g <+: c.rest) :
    ∃ e, skipGroup c n = .fail e n ∧ GroupFault c.peek c.rest e := by
  have hsearch := search_skipGroup hopen
  unfold skipGroup
  simp only [hopen]
  revert hsearch
  generalize closeGroup c.peek [close] c.peek.span c.next.rest = found
  intro hsearch
  cases hsearch with
  | @found g _ _ split group => exact absurd ⟨g, group, _, split.symm⟩ hnone
  | failed fault => exact ⟨_, rfl, fault⟩

/-- At an opening bracket, a group is skipped just when the tokens ahead begin with one. Then
    exactly the shortest such beginning is taken, and the place reaches from its first token
    to its last. Else skipping fails, at the first mismatched bracket or, if there is none,
    because a bracket is never closed. -/
theorem skipGroup_exact (hopen : c.peek.closing? = some close) (n : Nesting) :
    ((∃ span d m, skipGroup c n = .ok span d m) ↔ ∃ g, IsGroup g ∧ g <+: c.rest) ∧
    (∀ span d m, skipGroup c n = .ok span d m → m = n ∧
      ∃ g, IsGroup g ∧ c.Takes g d ∧ (∀ g', IsGroup g' → g' <+: c.rest → g.length ≤ g'.length) ∧
        ∃ first ∈ g.head?, ∃ last ∈ g.getLast?, span = first.span.cover last.span) ∧
    ((¬ ∃ g, IsGroup g ∧ g <+: c.rest) →
      ∃ e, skipGroup c n = .fail e n ∧ GroupFault c.peek c.rest e) := by
  refine ⟨⟨?_, ?_⟩, ?_, skipGroup_eq_fail n hopen⟩
  · rintro ⟨span, d, m, h⟩
    obtain ⟨-, g, hgroup, htakes, -⟩ := skipGroup_eq_ok h
    exact ⟨g, hgroup, d.rest, htakes.rest.symm⟩
  · rintro ⟨g, hgroup, hg⟩
    obtain ⟨span, d, h⟩ := exists_skipGroup n hgroup hg
    exact ⟨span, d, n, h⟩
  · intro span d m h
    obtain ⟨hm, g, hgroup, htakes, hspan⟩ := skipGroup_eq_ok h
    refine ⟨hm, g, hgroup, htakes, ?_, hspan⟩
    intro g' hgroup' hg'
    have hsame := hgroup.eq_of_prefix hgroup' ⟨d.rest, htakes.rest.symm⟩ hg'
    exact Nat.le_of_eq (congrArg List.length hsame)

end Skip

/-- The beginning of a line of symbols, each of them one character wide. -/
def lineOf (symbols : List Symbol) : Cursor :=
  .start
    (symbols.zipIdx.map fun x =>
      { kind := .symbol x.1, text := x.1.text, span := ⟨x.2, x.2 + 1, 1, x.2 + 1⟩ })
    ⟨symbols.length, symbols.length, 1, symbols.length + 1⟩

/-- A line that begins with a group and has a bracket behind it. -/
def groupLine : Cursor := lineOf [.openParen, .openBracket, .closeBracket, .openBrace, .semicolon,
  .closeBrace, .closeParen, .closeBracket]

/-- A line whose last bracket closes another one than is open. -/
def mismatchLine : Cursor := lineOf [.openParen, .openBracket, .closeParen]

theorem skipGroup_exact_mixed :
    (groupLine.peek.closing? = some .closeParen ∧
      ∃ g d, IsGroup g ∧ groupLine.Takes g d ∧ d.rest.length = 1 ∧
        ∀ g', IsGroup g' → g' <+: groupLine.rest → g.length ≤ g'.length) ∧
    (mismatchLine.peek.closing? = some .closeParen ∧
      (¬ ∃ g, IsGroup g ∧ g <+: mismatchLine.rest) ∧
        ∃ e, e.fault = .mismatched ")" .closeBracket ∧ e.span.column = 3 ∧
          GroupFault mismatchLine.peek mismatchLine.rest e) := by
  constructor
  · have hskip : skipGroup groupLine { limit := 0 } =
        .ok ⟨0, 7, 1, 1⟩ ⟨⟨6, 7, 1, 7⟩, groupLine.rest.drop 7, groupLine.stop⟩ { limit := 0 } := rfl
    obtain ⟨-, hok, -⟩ := skipGroup_exact (c := groupLine) rfl { limit := 0 }
    obtain ⟨-, g, hgroup, htakes, hleast, -⟩ := hok _ _ _ hskip
    exact ⟨rfl, g, _, hgroup, htakes, rfl, hleast⟩
  · have hskip : skipGroup mismatchLine { limit := 0 } =
        .fail ⟨.mismatched ")" .closeBracket, ⟨2, 3, 1, 3⟩⟩ { limit := 0 } := rfl
    obtain ⟨hiff, -, hfail⟩ := skipGroup_exact (c := mismatchLine) rfl { limit := 0 }
    have hnone : ¬ ∃ g, IsGroup g ∧ g <+: mismatchLine.rest := by
      intro hgroup
      obtain ⟨span, d, m, h⟩ := hiff.mpr hgroup
      rw [hskip] at h
      cases h
    obtain ⟨e, he, hfault⟩ := hfail hnone
    rw [hskip] at he
    cases he
    exact ⟨rfl, hnone, _, rfl, rfl, hfault⟩

end Parse

end GatewayPolicy
