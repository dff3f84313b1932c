import GatewayPolicy.Authoring.TypeName
import GatewayPolicy.Proofs.Reading.Alignment

/-! # Skipping and types, side by side

  Groups, skipped code and types of two aligned files end at corresponding
  tokens. The text of a type is the same in both.
-/

namespace GatewayPolicy

theorem Token.not_eof_of_closing {t : Token} {s : Symbol} (h : t.closing? = some s) :
    t.isEof = false := by
  unfold closing? at h
  split at h
  · rename_i hkind
    simp [isEof, hkind]
  · cases h

namespace Alignment

variable {a : Alignment}

/-! ## Tests of tokens -/

theorem tests_isSymbol (s : Symbol) : a.Tests (·.isSymbol s) := fun _ _ h => isSymbol_eq h s

theorem tests_isAnySymbol (ss : List Symbol) : a.Tests (·.isAnySymbol ss) :=
  fun _ _ h => isAnySymbol_eq h ss

theorem tests_isAnyWord (ws : List String) : a.Tests (·.isAnyWord ws) :=
  fun _ _ h => isAnyWord_eq h ws

theorem closing_eq {t t' : Token} (h : a.token t t') : t.closing? = t'.closing? := by
  rw [Token.closing?, Token.closing?, a.kind_eq h]

theorem tests_isOpening : a.Tests Token.isOpening := by
  intro t t' h
  rw [Token.isOpening, Token.isOpening, closing_eq h]

/-! ## Groups -/

/-- The ends of two groups: corresponding last tokens and what follows them. -/
def Ends (a : Alignment) (x y : Span × List Token) : Prop := a.span x.1 y.1 ∧ a.Runs x.2 y.2

theorem closeGroup_aligned {opening opening' : Token} (ho : a.token opening opening')
    {ts ts' : List Token} (h : a.Runs ts ts') (closers : List Symbol) {last last' : Span}
    (hl : a.span last last') :
    a.Outcomes a.Ends (closeGroup opening closers last ts)
      (closeGroup opening' closers last' ts') := by
  induction h generalizing closers last last' with
  | nil =>
    cases closers with
    | nil => exact .ok ⟨hl, .nil⟩
    | cons close outer =>
      refine .error ⟨?_, a.place_of ho⟩
      rw [a.text_eq ho]
  | cons head inside touch tail ih =>
    cases closers with
    | nil => exact .ok ⟨hl, .cons head inside touch tail⟩
    | cons close outer =>
      have hspan := a.span_of head inside
      unfold closeGroup
      -- which bracket a token opens or closes depends on its kind only
      rw [← a.kind_eq head, ← a.text_eq head]
      split
      · split
        · exact ih _ hspan
        · split
          · exact ih _ hspan
          · split
            · exact .error ⟨rfl, a.place_span hspan⟩
            · exact ih _ hspan
      · exact ih _ hspan

end Alignment

namespace Parse

variable {a : Alignment}

theorem aligned_skipGroup : Aligned a a.span skipGroup skipGroup := by
  intro c c' hc n n' hn
  unfold skipGroup
  have hpeek := hc.peek
  simp only [← Alignment.closing_eq hpeek]
  split
  · refine .fail ⟨?_, a.place_of hpeek⟩ hn
    rw [a.text_eq hpeek]
  · rename_i close hclose
    have hspan := a.span_of hpeek (Token.not_eof_of_closing hclose)
    have h := Alignment.closeGroup_aligned hpeek hc.next.rest [close] hspan
    revert h
    generalize closeGroup c.peek _ _ _ = x, closeGroup c'.peek _ _ _ = y
    rintro (⟨hlast, hrest⟩ | error)
    · exact .ok (a.cover_spans hspan hlast) ⟨hlast, hrest, hc.stop⟩ hn
    · exact .fail error hn

/-! ## Up to a token -/

variable {group stop : Token → Bool}

theorem aligned_skipToWithin (hgroup : a.Tests group) (hstop : a.Tests stop) (k : Nat) :
    Aligned a Eq (skipToWithin group stop k) (skipToWithin group stop k) := by
  induction k with
  | zero => exact aligned_pure rfl
  | succ k ih =>
    refine aligned_peek.bind fun t t' ht => ?_
    rw [← Alignment.isEof_eq ht, ← hstop t t' ht, ← hgroup t t' ht]
    split
    · exact aligned_pure rfl
    · split
      · exact aligned_skipGroup.bind fun _ _ _ => ih
      · exact aligned_advance.bind fun _ _ _ => ih

theorem aligned_skipTo (hgroup : a.Tests group) (hstop : a.Tests stop) :
    Aligned a Eq (skipTo group stop) (skipTo group stop) :=
  aligned_bounded (aligned_skipToWithin hgroup hstop)

theorem aligned_skipUntilSemicolon : Aligned a Eq skipUntilSemicolon skipUntilSemicolon :=
  (aligned_skipTo Alignment.tests_isOpening (Alignment.tests_isAnySymbol _)).bind_eq fun _ =>
    aligned_require _

theorem aligned_skipPastSemicolon : Aligned a Eq skipPastSemicolon skipPastSemicolon :=
  aligned_skipUntilSemicolon.bind_eq fun _ => aligned_advance.bind fun _ _ _ => aligned_pure rfl

theorem aligned_skipStatement : Aligned a Eq skipStatement skipStatement := by
  refine (aligned_skipTo (Alignment.tests_isAnySymbol _) (Alignment.tests_isAnySymbol _)).bind_eq
    fun _ => ?_
  refine aligned_peek.bind fun t t' ht => ?_
  simp only [← Alignment.isSymbol_eq ht]
  split
  · exact aligned_pure rfl
  · split
    · exact aligned_skipGroup.bind fun _ _ _ => aligned_pure rfl
    · split
      · exact aligned_advance.bind fun _ _ _ => aligned_pure rfl
      · exact aligned_expected _

theorem aligned_skipMember : Aligned a Eq skipMember skipMember := by
  refine (aligned_skipTo (Alignment.tests_isAnySymbol _) (Alignment.tests_isAnySymbol _)).bind_eq
    fun _ => ?_
  refine aligned_peek.bind fun t t' ht => ?_
  simp only [← Alignment.isSymbol_eq ht]
  split
  · exact aligned_advance.bind fun _ _ _ => aligned_pure rfl
  split
  · exact aligned_skipPastSemicolon
  split
  · refine aligned_skipGroup.bind fun _ _ _ => ?_
    refine (aligned_eat _).bind_eq fun b => ?_
    split
    · exact aligned_skipPastSemicolon
    · exact aligned_pure rfl
  split
  · exact aligned_expected _
  · exact aligned_expected _

theorem aligned_skipTypeBody : Aligned a Eq skipTypeBody skipTypeBody := by
  refine (aligned_skipTo (fun _ _ _ => rfl) (Alignment.tests_isAnySymbol _)).bind_eq fun _ => ?_
  refine (aligned_require _).bind_eq fun _ => ?_
  refine aligned_skipGroup.bind fun _ _ _ => ?_
  exact (aligned_eat _).bind_eq fun _ => aligned_pure rfl

theorem aligned_skipConstraints : Aligned a Eq skipConstraints skipConstraints := by
  refine (aligned_atWord _).bind_eq fun b => ?_
  split
  · exact aligned_skipTo (Alignment.tests_isSymbol _) (Alignment.tests_isAnySymbol _)
  · exact aligned_pure rfl

/-- Skipping a token that passes the test is taking it and skipping on. -/
theorem skipWhile_cons_pos {p : Token → Bool} {t : Token} (hp : p t = true) (last : Span)
    (ts : List Token) (stop : Span) :
    Cursor.skipWhile p ⟨last, t :: ts, stop⟩ = Cursor.skipWhile p ⟨t.span, ts, stop⟩ := by
  unfold Cursor.skipWhile
  dsimp only
  rw [List.takeWhile_cons_of_pos hp, List.dropWhile_cons_of_pos hp, List.getLast?_cons]
  cases (ts.takeWhile p).getLast? <;> rfl

theorem skipWhile_cons_neg {p : Token → Bool} {t : Token} (hp : ¬p t = true) (last : Span)
    (ts : List Token) (stop : Span) :
    Cursor.skipWhile p ⟨last, t :: ts, stop⟩ = ⟨last, t :: ts, stop⟩ := by
  unfold Cursor.skipWhile
  dsimp only
  rw [List.takeWhile_cons_of_neg hp, List.dropWhile_cons_of_neg hp]
  rfl

theorem skipWhile_aligned {p : Token → Bool} (hp : a.Tests p) {ts ts' : List Token}
    (h : a.Runs ts ts') {last last' stop stop' : Span}
    (hc : a.Cursors ⟨last, ts, stop⟩ ⟨last', ts', stop'⟩) :
    List.Forall₂ a.token (ts.takeWhile p) (ts'.takeWhile p) ∧
      a.Cursors (Cursor.skipWhile p ⟨last, ts, stop⟩) (Cursor.skipWhile p ⟨last', ts', stop'⟩) := by
  induction h generalizing last last' with
  | nil => exact ⟨.nil, hc⟩
  | @cons t t' ts ts' head inside touch tail ih =>
    have heq := hp t t' head
    by_cases ht : p t = true
    · have ht' : p t' = true := heq ▸ ht
      obtain ⟨htaken, hbehind⟩ := ih hc.next
      rw [skipWhile_cons_pos ht, skipWhile_cons_pos ht', List.takeWhile_cons_of_pos ht,
        List.takeWhile_cons_of_pos ht']
      exact ⟨.cons head htaken, hbehind⟩
    · have ht' : ¬p t' = true := heq ▸ ht
      rw [skipWhile_cons_neg ht, skipWhile_cons_neg ht', List.takeWhile_cons_of_neg ht,
        List.takeWhile_cons_of_neg ht']
      exact ⟨.nil, hc⟩

theorem aligned_takeWhile {p : Token → Bool} (hp : a.Tests p) :
    Aligned a (List.Forall₂ a.token) (takeWhile p) (takeWhile p) := by
  intro c c' hc n n' hn
  obtain ⟨htaken, hbehind⟩ := skipWhile_aligned hp hc.rest hc
  exact .ok htaken hbehind hn

/-! ## Type parameters -/

theorem closeAngles_aligned {ts ts' : List Token} (h : a.Runs ts ts') (depth : Nat)
    {last last' : Span} (hl : a.span last last') :
    Option.Rel a.Ends (closeAngles depth last ts) (closeAngles depth last' ts') := by
  induction h generalizing depth last last' with
  | nil =>
    cases depth with
    | zero => exact .some ⟨hl, .nil⟩
    | succ depth => exact .none
  | cons head inside touch tail ih =>
    cases depth with
    | zero => exact .some ⟨hl, .cons head inside touch tail⟩
    | succ depth =>
      have hspan := a.span_of head inside
      unfold closeAngles
      rw [← Alignment.isSymbol_eq head, ← Alignment.isSymbol_eq head]
      split
      · exact ih _ hspan
      · split
        · exact ih _ hspan
        · exact ih _ hspan

theorem aligned_skipAngles : Aligned a Eq skipAngles skipAngles := by
  refine (aligned_expect _).bind fun t t' ht => ?_
  refine aligned_cursor.bind fun c c' hc => ?_
  have h := closeAngles_aligned hc.rest 1 (a.span_of_symbol ht)
  revert h
  generalize closeAngles 1 t.span c.rest = x, closeAngles 1 t'.span c'.rest = y
  rintro (⟨hlast, hrest⟩ | _)
  · exact aligned_rewind ⟨hlast, hrest, hc.stop⟩
  · exact aligned_throw ⟨rfl, a.place_of ht.1⟩

/-! ## Types -/

variable {p q : Parse String}

theorem Aligned.typeArgumentsOf (hp : Aligned a Eq p q) :
    Aligned a Eq (Parse.typeArgumentsOf p) (Parse.typeArgumentsOf q) := by
  refine (aligned_expect _).bind fun _ _ _ => ?_
  refine Aligned.bind_eq ?_ fun types => ?_
  · refine (aligned_at _).bind_eq fun b => ?_
    split
    · exact aligned_pure rfl
    · exact hp.commaList.mono fun _ _ h => List.forall₂_eq_eq_eq ▸ h
  · exact (aligned_expect _).bind fun _ _ _ => aligned_pure rfl

theorem Aligned.typePathWithin (hp : Aligned a Eq p q) (k : Nat) :
    Aligned a Eq (Parse.typePathWithin p k) (Parse.typePathWithin q k) := by
  induction k with
  | zero => exact aligned_pure rfl
  | succ k ih =>
    refine (aligned_at _).bind_eq fun b => ?_
    -- the path goes on alike, with type arguments in front or without
    extract_lets tail tail'
    have htail : ∀ u, Aligned a Eq (tail u) (tail' u) := by
      intro u
      refine (aligned_atAny _).bind_eq fun b => ?_
      refine (aligned_peekAt 1).bind fun t t' ht => ?_
      rw [← Alignment.isIdentifier_eq ht]
      split
      · exact aligned_advance.bind fun _ _ _ => aligned_advance.bind fun _ _ _ => ih
      · exact aligned_pure rfl
    split
    · exact hp.typeArgumentsOf.bind_eq fun _ => htail ()
    · exact htail ()

theorem aligned_typeEndingWithin (k : Nat) :
    Aligned a Eq (typeEndingWithin k) (typeEndingWithin k) := by
  induction k with
  | zero => exact aligned_pure rfl
  | succ k ih =>
    refine (aligned_peekAt 1).bind fun t t' ht => ?_
    refine (aligned_at _).bind_eq fun b => ?_
    rw [← Alignment.isIdentifier_eq ht]
    simp only [← Alignment.isAnySymbol_eq ht]
    split
    · exact aligned_advance.bind fun _ _ _ => ih
    · refine (aligned_at _).bind_eq fun b => ?_
      split
      · exact aligned_skipGroup.bind fun _ _ _ => ih
      · exact aligned_pure rfl

theorem namesType_eq {t t' : Token} (h : a.token t t') : t.namesType = t'.namesType := by
  rw [Token.namesType, Token.namesType, Alignment.isIdentifier_eq h, a.text_eq h]

theorem typeText_eq {ts ts' : List Token} (h : List.Forall₂ a.token ts ts') :
    typeText ts = typeText ts' := by
  unfold typeText
  congr 1
  induction h with
  | nil => rfl
  | cons head _ ih =>
    rw [List.map_cons, List.map_cons, ih, Alignment.isSymbol_eq head, a.text_eq head]

theorem tokensTo_aligned {c c' d d' : Cursor} (hc : a.Cursors c c') (hd : a.Cursors d d') :
    List.Forall₂ a.token (c.tokensTo d) (c'.tokensTo d') := by
  unfold Cursor.tokensTo
  rw [← hc.rest.length_eq, ← hd.rest.length_eq]
  exact List.forall₂_take _ hc.rest.forall₂

theorem Aligned.typeOf (hp : Aligned a Eq p q) :
    Aligned a Eq (Parse.typeOf p) (Parse.typeOf q) := by
  refine aligned_cursor.bind fun c c' hc => ?_
  extract_lets tail tail'
  have htail : ∀ u, Aligned a Eq (tail u) (tail' u) := by
    intro u
    refine (aligned_bounded aligned_typeEndingWithin).bind_eq fun _ => ?_
    refine aligned_cursor.bind fun d d' hd => ?_
    -- the text of a type is made of the texts of its tokens, and not sliced from the file
    exact aligned_pure (typeText_eq (tokensTo_aligned hc hd))
  rw [← Alignment.isSymbol_eq hc.peek, ← namesType_eq hc.peek]
  split
  · exact aligned_skipGroup.bind fun _ _ _ => htail ()
  · split
    · refine aligned_advance.bind fun _ _ _ => ?_
      exact (aligned_bounded hp.typePathWithin).bind_eq htail
    · exact (aligned_expected _).bind_eq htail

theorem aligned_typeWithin (depth : Nat) :
    Aligned a Eq (Parse.typeWithin depth) (Parse.typeWithin depth) := by
  induction depth with
  | zero => exact aligned_expected _
  | succ depth ih => exact ih.typeOf

theorem aligned_typeName : Aligned a Eq typeName typeName := aligned_bounded aligned_typeWithin

theorem aligned_typeArguments : Aligned a Eq typeArguments typeArguments :=
  aligned_typeName.typeArgumentsOf

theorem aligned_callTypeArguments : Aligned a Eq callTypeArguments callTypeArguments :=
  aligned_typeArguments.bind_eq fun _ => (aligned_require _).bind_eq fun _ => aligned_pure rfl

end Parse

end GatewayPolicy
