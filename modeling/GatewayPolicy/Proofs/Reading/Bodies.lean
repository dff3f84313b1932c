import GatewayPolicy.Proofs.Reading.OperatorPlaces
import GatewayPolicy.Proofs.Reading.Partition

/-! # Expression bodies

  A method with an expression body has an arrow behind its parameters and a semicolon at its
  end. The place of the body is meant to cover the tokens between the two, whether they were
  read as an expression or kept as they are. There are two exceptions. An exclamation mark at
  the end is left out unless the body keeps it (`Expr.keepsMark`). And a body of no tokens
  has a place all the same, which covers the arrow and the semicolon.

  - `Parse.methodOf_arrow` cuts the tokens of such a method at its arrow and its semicolon.
  - `InOrder.filter_inside` finds the tokens of a place among all tokens.
  - `SourceTree.expressionBodies_cover` is the result.
-/

namespace GatewayPolicy

/-! ## Places of bodies -/

/-- The place of a body from one index up to another, in front of which stands an arrow and
    behind which a semicolon. -/
def Expr.BodyBetween (ts : List Token) (i j : Nat) (e : Expr) : Prop :=
  (i = j ∧ JoinedFrom ts (i - 1) i e.span) ∨ e.ReadBetween ts i j

namespace Parse

variable {ts : List Token} {stop : Span} {c d : Cursor} {n m : Nesting} {e : Expr} {i a : Nat}

/-- What is skipped is kept by its place, even if it is nothing. -/
theorem skipped_places (hc : c.StandsAt ts stop (a + 1))
    (h : (do
      skipUntilSemicolon
      return Expr.unparsed (c.peek.span.cover (← last))) c n = .ok e d m) :
    ∃ j, d.StandsAt ts stop j ∧ d.peek.isSymbol .semicolon = true ∧
      e.BodyBetween ts (a + 1) j := by
  obtain ⟨_, d', _, hskip, h⟩ := bind_eq_ok h
  cases h
  have hsemicolon : d.peek.isSymbol .semicolon = true :=
    Finishes.fits (Q := fun _ c => c.peek.isSymbol .semicolon = true) hskip
  have hreach : c.Reaches d := Forward.reaches hskip
  rcases hreach.eq_or_passes with rfl | hpasses
  · -- the token taken last is the arrow, and the next one the semicolon
    obtain ⟨ht, -⟩ := hc.next (Token.not_eof_of_isSymbol hsemicolon)
    obtain ⟨u, hu, hlast⟩ := hc.last_eq
    have hspan := (JoinedFrom.token ht).cover (JoinedFrom.token hu)
    rw [Nat.min_eq_right (Nat.le_succ a), Nat.max_eq_left (Nat.le_succ a), ← hlast] at hspan
    exact ⟨a + 1, hc, hsemicolon, .inl ⟨rfl, hspan⟩⟩
  · have hfirst := stretch_peek hc hpasses
    obtain ⟨taken, hne, htakes⟩ := hpasses
    have hd := hc.takes htakes
    obtain ⟨k, hk⟩ := Nat.exists_eq_add_one.2 (List.length_pos_of_ne_nil hne)
    rw [hk, ← Nat.add_assoc] at hd
    have hspan := hd.stretch hfirst (Nat.le_add_right _ _)
    exact ⟨_, hd, hsemicolon, .inr ⟨_, .intro hspan (.nil (by omega)), rfl⟩⟩

theorem expressionBody_places {g : Grammar} (hg : g.Places ts stop)
    (hc : c.StandsAt ts stop (a + 1))
    (h : expressionBody g.assignment c n = .ok e d m) :
    ∃ j, d.StandsAt ts stop j ∧ d.peek.isSymbol .semicolon = true ∧
      e.BodyBetween ts (a + 1) j := by
  rcases expressionBody_eq_ok h with ⟨hread, hsemicolon⟩ | ⟨_, hskip⟩
  · obtain ⟨j, hd, hbetween⟩ := hg.assignment hc hread
    exact ⟨j, hd, hsemicolon, .inr hbetween⟩
  · exact skipped_places hc hskip

end Parse

/-! ## Methods -/

/-- The parameters of a method and its constraints are read from `header`, behind which come
    the tokens `rest`. -/
def MethodDecl.HeadedBy (g : Grammar) (method : MethodDecl) (header rest : List Token) : Prop :=
  ∃ (c c' d : Cursor) (n n' m : Nesting), c.rest = header ++ rest ∧
    Parse.parameters g c n = .ok method.parameters c' n' ∧
    Parse.skipConstraints c' n' = .ok () d m ∧ d.rest = rest

theorem Parse.eat_eq_true {s : Symbol} {c d : Cursor} {n m : Nesting}
    (h : eat s c n = .ok true d m) : c.peek.isSymbol s = true ∧ d = c.next := by
  unfold eat at h
  split at h
  · rename_i hs
    cases h
    exact ⟨hs, rfl⟩
  · cases h

/-- A method with an expression body is cut by its arrow and its semicolon, with which it
    ends. -/
theorem Parse.methodOf_arrow {ts : List Token} {stop start : Span} {g : CodeGrammar}
    [Grammar.Forward g.toGrammar] (hg : g.toGrammar.Places ts stop)
    {c d : Cursor} {n m : Nesting} {i : Nat} {type : String}
    {name : Token} {mods : List String} {method : MethodDecl} {e : Expr}
    (hc : c.StandsAt ts stop i) (h : methodOf g start type name mods c n = .ok method d m)
    (hbody : method.body = some (.expression e)) :
    ∃ header arrow inner semicolon, c.Takes (header ++ arrow :: (inner ++ [semicolon])) d ∧
      method.HeadedBy g.toGrammar header (arrow :: (inner ++ semicolon :: d.rest)) ∧
      arrow.isSymbol .arrow = true ∧ semicolon.isSymbol .semicolon = true ∧
      method.span = start.cover semicolon.span ∧
      e.BodyBetween ts (i + header.length + 1) (i + header.length + 1 + inner.length) := by
  obtain ⟨ps, c₁, _, hparameters, h⟩ := bind_eq_ok h
  obtain ⟨_, c₂, _, hconstraints, h⟩ := bind_eq_ok h
  have hreach : c.Reaches c₂ := (Forward.reaches hparameters).trans (Forward.reaches hconstraints)
  obtain ⟨header, hheader⟩ := hreach
  have hc₂ := hc.takes hheader
  obtain ⟨body, c₃, _, hread, h⟩ := bind_eq_ok h
  obtain ⟨_, _, _, hlast, h⟩ := bind_eq_ok h
  cases hlast
  cases h
  dsimp only at hbody
  subst hbody
  -- only a body behind an arrow is an expression
  obtain ⟨_, _, _, hat, hread⟩ := bind_eq_ok hread
  cases hat
  split at hread
  · obtain ⟨r, _, _, hblock, hread⟩ := bind_eq_ok hread
    cases hread
  obtain ⟨arrowed, c₄, _, heat, hread⟩ := bind_eq_ok hread
  cases arrowed with
  | true =>
    obtain ⟨harrow, rfl⟩ := eat_eq_true heat
    obtain ⟨-, hc₄⟩ := hc₂.next (Token.not_eof_of_isSymbol harrow)
    have hfirst := Cursor.takes_next (Token.not_eof_of_isSymbol harrow)
    obtain ⟨value, c₅, _, hvalue, hread⟩ := bind_eq_ok hread
    obtain ⟨inner, hinner⟩ : c₂.next.Reaches c₅ := Forward.reaches hvalue
    obtain ⟨j, hc₅, -, hbetween⟩ := expressionBody_places hg hc₄ hvalue
    obtain rfl := standsAt_unique hc₅ (hc₄.takes hinner)
    obtain ⟨semicolon, _, _, hexpect, hread⟩ := bind_eq_ok hread
    cases hread
    obtain ⟨rfl, rfl, hsemicolon⟩ := expect_eq_ok hexpect
    have hend := Cursor.takes_next (Token.not_eof_of_isSymbol hsemicolon)
    have hrest : c₂.rest = c₂.peek :: (inner ++ c₅.peek :: c₅.next.rest) := by
      rw [hfirst.rest, hinner.rest, hend.rest]
      rfl
    refine ⟨header, c₂.peek, inner, c₅.peek, ?_, ?_, harrow, hsemicolon, ?_, hbetween⟩
    · exact hheader.append (hfirst.append (hinner.append hend))
    · refine ⟨c, c₁, c₂, n, _, _, ?_, hparameters, hconstraints, hrest⟩
      rw [hheader.rest, hrest]
    · show start.cover c₅.next.last = start.cover c₅.peek.span
      rw [hend.last]
      rfl
  | false =>
    obtain ⟨_, _, _, hsemicolon, hread⟩ := bind_eq_ok hread
    cases hread

/-! ## Tokens of a place -/

namespace InOrder

variable {ts : List Token}

theorem before (h : InOrder ts) : ts.Pairwise Token.Before := by
  refine h.behind.imp_of_mem ?_
  intro t u ht hu hbehind
  have hfilled := h.filled t ht
  have hfilled' := h.filled u hu
  exact ⟨by omega, by omega, hbehind⟩

/-- The tokens of a place are those from its first index to its last. -/
theorem filter_inside (h : InOrder ts) {i k : Nat} {s : Span} (hs : JoinedFrom ts i k s) :
    ts.filter (·.Inside s) = (ts.drop i).take (k + 1 - i) := by
  obtain ⟨hik, first, last, hfirst, hlast, rfl⟩ := hs.isStretch h.before
  have hcut : ts = ts.take i ++ ((ts.drop i).take (k + 1 - i) ++ ts.drop (k + 1)) := by
    have hdrop : ts.drop (k + 1) = (ts.drop i).drop (k + 1 - i) := by
      rw [List.drop_drop]
      congr 1
      omega
    rw [hdrop, List.take_append_drop, List.take_append_drop]
  -- tokens in front stop before the place starts, and tokens behind stop after it stops
  obtain ⟨hfront, -, hbetween⟩ := ((List.take_append_drop i ts).symm ▸ h).append
  obtain ⟨-, hback, hbetween'⟩ := ((List.take_append_drop (k + 1) ts).symm ▸ h).append
  have hbefore : (ts.take i).filter (·.Inside { first.span with stop := last.span.stop }) = [] := by
    rw [List.filter_eq_nil_iff]
    intro t ht hinside
    have hfilled := hfront.filled t ht
    have hle := hbetween t ht first (List.mem_of_getElem? (i := 0) (by simpa using hfirst))
    have hstart := (of_decide_eq_true hinside).1
    dsimp only at hstart
    omega
  have hbehind : (ts.drop (k + 1)).filter
      (·.Inside { first.span with stop := last.span.stop }) = [] := by
    rw [List.filter_eq_nil_iff]
    intro t ht hinside
    have hfilled := hback.filled t ht
    have hle := hbetween' last (List.mem_of_getElem? (i := k) (by simpa using hlast)) t ht
    have hstop := (of_decide_eq_true hinside).2
    dsimp only at hstop
    omega
  have hinner : ((ts.drop i).take (k + 1 - i)).filter
      (·.Inside { first.span with stop := last.span.stop }) = (ts.drop i).take (k + 1 - i) := by
    rw [List.filter_eq_self]
    intro t ht
    obtain ⟨x, hx⟩ := List.mem_iff_getElem?.1 ht
    rw [List.getElem?_take, List.getElem?_drop] at hx
    split at hx
    · exact decide_eq_true ⟨(start_le_iff h.before hfirst hx).2 (Nat.le_add_right _ _),
        stop_le_of_le h.before hx hlast (by omega)⟩
    · cases hx
  conv_lhs => rw [hcut]
  rw [List.filter_append, List.filter_append, hbefore, hinner, hbehind, List.nil_append,
    List.append_nil]

end InOrder

/-! ## Covered tokens -/

/-- The tokens that the place of a body covers, where the tokens `inner` stand between the
    arrow and the semicolon. -/
def Expr.covered (e : Expr) (arrow semicolon : Token) (inner : List Token) : List Token :=
  if inner.isEmpty then [arrow, semicolon]
  else if inner.getLast?.any (·.isSymbol .bang) && !e.keepsMark then inner.dropLast
  else inner

/-- Whether tokens among others end with a mark. -/
theorem markAt_last {front inner back : List Token} {k : Nat} (hne : inner ≠ [])
    (hk : k + 1 = front.length + inner.length) :
    MarkAt (front ++ (inner ++ back)) k ↔ inner.getLast?.any (·.isSymbol .bang) = true := by
  have hpos := List.length_pos_of_ne_nil hne
  have hindex : k - front.length = inner.length - 1 := by omega
  have hlast : (front ++ (inner ++ back))[k]? = inner.getLast? := by
    rw [List.getElem?_append_right (by omega), List.getElem?_append_left (by omega), hindex,
      List.getLast?_eq_getElem?]
  unfold MarkAt
  rw [hlast, Option.any_eq_true]

theorem Expr.BodyBetween.filter_inside {front inner behind : List Token} {arrow semicolon : Token}
    {e : Expr} (hts : InOrder (front ++ arrow :: (inner ++ semicolon :: behind)))
    (h : e.BodyBetween (front ++ arrow :: (inner ++ semicolon :: behind)) (front.length + 1)
      (front.length + 1 + inner.length)) :
    (front ++ arrow :: (inner ++ semicolon :: behind)).filter (·.Inside e.span) =
      e.covered arrow semicolon inner := by
  rcases h with ⟨hempty, hspan⟩ | ⟨k, hlaid, hends⟩
  · obtain rfl : inner = [] := List.length_eq_zero_iff.1 (by omega)
    rw [hts.filter_inside hspan, Nat.add_sub_cancel, List.drop_left]
    have htwo : front.length + 1 + 1 - front.length = 2 := by omega
    rw [htwo]
    rfl
  · have hle := hlaid.le
    have hlt : k < front.length + 1 + inner.length := by
      split at hends
      · omega
      · exact hends.lt
    -- the place covers so many of the tokens between
    have hcovers : (front ++ arrow :: (inner ++ semicolon :: behind)).filter (·.Inside e.span) =
        inner.take (k + 1 - (front.length + 1)) := by
      rw [hts.filter_inside hlaid.span, ← List.drop_drop, List.drop_left, List.drop_one,
        List.tail_cons, List.take_append_of_le_length (by omega)]
    have hne : inner ≠ [] := List.ne_nil_of_length_pos (by omega)
    have hmark : ∀ x, x + 1 = front.length + 1 + inner.length →
        (MarkAt (front ++ arrow :: (inner ++ semicolon :: behind)) x ↔
          inner.getLast?.any (·.isSymbol .bang) = true) := by
      intro x hx
      rw [List.append_cons]
      exact markAt_last hne (by simpa using hx)
    unfold Expr.covered
    rw [hcovers, if_neg (by simpa using hne)]
    cases hkeeps : e.keepsMark with
    | true =>
      rw [if_pos hkeeps] at hends
      rw [Bool.not_true, Bool.and_false, if_neg Bool.false_ne_true]
      exact List.take_of_length_le (by omega)
    | false =>
      rw [hkeeps, if_neg Bool.false_ne_true] at hends
      rw [Bool.not_false, Bool.and_true]
      rcases hends with ⟨hk, hplain⟩ | ⟨hk, hmarked⟩
      · rw [if_neg fun h => hplain ((hmark k hk).2 h)]
        exact List.take_of_length_le (by omega)
      · rw [if_pos ((hmark (k + 1) hk).1 hmarked), List.dropLast_eq_take]
        congr 1
        omega

/-! ## Files -/

/-- The tokens of a file as a method with an expression body cuts them. -/
structure MethodDecl.ArrowCut (g : Grammar) (tokens : List Token) (method : MethodDecl)
    (before header inner behind : List Token) (arrow semicolon : Token) : Prop where
  cut : tokens = before ++ header ++ arrow :: (inner ++ semicolon :: behind)
  /-- The arrow is the token behind the parameters and the constraints of the method. -/
  headed : method.HeadedBy g header (arrow :: (inner ++ semicolon :: behind))
  isArrow : arrow.isSymbol .arrow = true
  isSemicolon : semicolon.isSymbol .semicolon = true
  /-- The semicolon ends the method. -/
  stop : method.span.stop = semicolon.span.stop

/-- The second of two tokens that cut a list. -/
theorem getElem?_second (front inner behind : List Token) (t u : Token) :
    (front ++ t :: (inner ++ u :: behind))[front.length + 1 + inner.length]? = some u := by
  rw [Nat.add_assoc, List.getElem?_append_right (Nat.le_add_right _ _), Nat.add_sub_cancel_left,
    Nat.add_comm 1, List.getElem?_cons_succ, List.getElem?_append_right (Nat.le_refl _),
    Nat.sub_self]
  rfl

/-- Every method with an expression body cuts the tokens of its file, and the body is placed
    between the arrow and the semicolon. -/
theorem MethodDecl.ReadBehind.arrowCut {limit : Nat} {ts : List Token} {stop : Span}
    (hts : ts.Pairwise Token.Before) {method : MethodDecl} {e : Expr}
    (h : method.ReadBehind (.within limit) (.start ts stop))
    (hbody : method.body = some (.expression e)) :
    ∃ before header inner behind arrow semicolon,
      method.ArrowCut (.within limit) ts before header inner behind arrow semicolon ∧
      e.BodyBetween ts ((before ++ header).length + 1)
        ((before ++ header).length + 1 + inner.length) := by
  obtain ⟨first, hfirst, type, name, mods, c, d, n, m, hreach, hread⟩ := h
  have hforward : Grammar.Forward (CodeGrammar.within limit).toGrammar :=
    Grammar.forward_within limit
  obtain ⟨front, hfront⟩ := hfirst
  obtain ⟨declared, hdeclared⟩ := hreach
  have hdeclaration := (Cursor.standsAt_start ts stop).takes hfront
  have hbefore := hfront.append hdeclared
  have hc := (Cursor.standsAt_start ts stop).takes hbefore
  rw [Nat.zero_add] at hdeclaration hc
  obtain ⟨header, arrow, inner, semicolon, htakes, hheaded, harrow, hsemicolon, hspan, hbetween⟩ :=
    Parse.methodOf_arrow (Grammar.places_within ts stop limit) hc hread hbody
  have hcut : ts = front ++ declared ++ header ++ arrow :: (inner ++ semicolon :: d.rest) := by
    have hrest : ts = front ++ declared ++ c.rest := hbefore.rest
    rw [hrest, htakes.rest]
    simp
  have hlast : ts[(front ++ declared ++ header).length + 1 + inner.length]? = some semicolon := by
    rw [hcut]
    exact getElem?_second ..
  -- the declaration starts with a token in front of the semicolon
  have hstop : method.span.stop = semicolon.span.stop := by
    have hpasses : first.Passes d := ⟨_, by simp, hdeclared.append htakes⟩
    have hfirst := Parse.stretch_peek hdeclaration hpasses
    have hjoined := hfirst.upto (.token hlast) (by simp; omega) (by simp; omega)
    rw [← hspan] at hjoined
    obtain ⟨-, t, u, -, hu, hplace⟩ := hjoined.isStretch hts
    rw [hlast] at hu
    cases hu
    rw [hplace]
  refine ⟨front ++ declared, header, inner, d.rest, arrow, semicolon,
    ⟨hcut, hheaded, harrow, hsemicolon, hstop⟩, ?_⟩
  simpa only [List.length_append] using hbetween

/-- In a file that parses, the place of an expression body covers the tokens between the
    arrow of its method and the semicolon, but for an exclamation mark at the end that it does
    not keep; a body of no tokens covers the arrow and the semicolon. -/
theorem SourceTree.expressionBodies_cover {file : SourceFile} {tree : SourceTree}
    (hfits : file.text.utf8ByteSize < UInt32.size) (h : SourceTree.parse file = .ok tree) :
    ∃ tokens stop, scan file.text = .ok (tokens, stop) ∧
      ∀ c ∈ tree.classes, ∀ method ∈ c.methods, ∀ e, method.body = some (.expression e) →
        ∃ before header inner behind arrow semicolon,
          method.ArrowCut (.within nestingLimit) tokens before header inner behind arrow semicolon ∧
          tokens.filter (·.Inside e.span) = e.covered arrow semicolon inner := by
  obtain ⟨tokens, stop, hscan, hread⟩ := SourceTree.methods_read h
  have hts := (InOrder.of_scan hfits hscan).1
  refine ⟨tokens, stop, hscan, ?_⟩
  intro c hc method hmethod e hbody
  obtain ⟨before, header, inner, behind, arrow, semicolon, hcut, hbetween⟩ :=
    (hread c hc method hmethod).arrowCut hts.before hbody
  refine ⟨before, header, inner, behind, arrow, semicolon, hcut, ?_⟩
  obtain rfl := hcut.cut
  exact hbetween.filter_inside hts

/-- A body that leaves out a mark, a body of no tokens and a body that keeps a mark. -/
def markFile : SourceFile where
  name := "a.cs"
  text := "class C \x7b int A() => b!; int D() => ; int E() => f => g!; \x7d"

/-- The texts of the tokens that the body of each method covers. -/
def SourceTree.bodyTexts (tree : SourceTree) (tokens : List Token) : List (List String) :=
  (tree.classes.flatMap ClassDecl.methods).map fun method =>
    match method.body with
    | some body => (tokens.filter (·.Inside body.span)).map Token.text
    | none => []

theorem SourceTree.expressionBodies_cover_marks :
    ∃ tree tokens stop, SourceTree.parse markFile = .ok tree ∧
      scan markFile.text = .ok (tokens, stop) ∧
      tree.bodyTexts tokens = [["b"], ["=>", ";"], ["f", "=>", "g", "!"]] ∧
      ∀ c ∈ tree.classes, ∀ method ∈ c.methods, ∀ e, method.body = some (.expression e) →
        ∃ before header inner behind arrow semicolon,
          method.ArrowCut (.within nestingLimit) tokens before header inner behind arrow semicolon ∧
          tokens.filter (·.Inside e.span) = e.covered arrow semicolon inner := by
  have htexts : ((SourceTree.parse markFile).toOption.bind fun tree =>
      (scan markFile.text).toOption.map fun scanned => tree.bodyTexts scanned.1) =
        some [["b"], ["=>", ";"], ["f", "=>", "g", "!"]] := by
    decide +kernel
  cases htree : SourceTree.parse markFile with
  | error e =>
    rw [htree] at htexts
    cases htexts
  | ok tree =>
    obtain ⟨tokens, stop, hscan, hbodies⟩ :=
      SourceTree.expressionBodies_cover (by decide +kernel) htree
    rw [htree, hscan] at htexts
    exact ⟨tree, tokens, stop, rfl, hscan, Option.some.inj htexts, hbodies⟩

end GatewayPolicy
