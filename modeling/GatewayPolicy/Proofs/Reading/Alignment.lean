import GatewayPolicy.Authoring.Cursor
import Mathlib.Data.List.Forall2
import Mathlib.Data.Option.Basic

/-! # Reading two files side by side

  What is read depends on the kinds and texts of tokens, on which neighbours
  touch, and not on where the tokens stand. So two files whose tokens correspond
  are read alike, step by step.

  - An `Alignment` says which tokens and which places of two files correspond. The end of
    a file is the place of a token too, but nothing that is read stands there.
  - `Parse.Aligned` says that two parses, started at corresponding cursors, both
    give corresponding values or both fail with corresponding errors.
  - Each way to build a parse has a lemma here, and productions of the grammar are put
    together from these.
-/

namespace GatewayPolicy

/-! ## Tokens in front of the end -/

namespace Token

variable {t : Token}

theorem not_eof_of_isSymbol {s : Symbol} (h : t.isSymbol s = true) : t.isEof = false := by
  simp_all [isSymbol, isEof]

theorem not_eof_of_isAnySymbol {ss : List Symbol} (h : t.isAnySymbol ss = true) :
    t.isEof = false := by
  obtain ⟨s, -, hs⟩ := List.any_eq_true.mp h
  exact not_eof_of_isSymbol hs

theorem not_eof_of_isIdentifier (h : t.isIdentifier = true) : t.isEof = false := by
  simp_all [isIdentifier, isEof]

theorem not_eof_of_isWord {w : String} (h : t.isWord w = true) : t.isEof = false := by
  simp_all [isWord, isEof]

theorem not_eof_of_isName (h : t.isName = true) : t.isEof = false := by
  simp_all [isName, isIdentifier, isEof]

end Token

/-! ## Alignments -/

/-- Tokens and places of two files that correspond. -/
structure Alignment where
  token : Token → Token → Prop
  /-- Places that something may be missing at, the ends of the files among them. -/
  place : Span → Span → Prop
  /-- Places that something stands at. -/
  span : Span → Span → Prop
  kind_eq : ∀ {t t' : Token}, token t t' → t.kind = t'.kind
  text_eq : ∀ {t t' : Token}, token t t' → t.text = t'.text
  place_of : ∀ {t t' : Token}, token t t' → place t.span t'.span
  span_of : ∀ {t t' : Token}, token t t' → t.isEof = false → span t.span t'.span
  place_span : ∀ {s s' : Span}, span s s' → place s s'
  cover : ∀ {r r' s s' : Span}, place r r' → span s s' → span (r.cover s) (r'.cover s')

namespace Alignment

variable (a : Alignment)

theorem span_of_symbol {t t' : Token} {s : Symbol} (h : a.token t t' ∧ t.isSymbol s = true) :
    a.span t.span t'.span :=
  a.span_of h.1 (Token.not_eof_of_isSymbol h.2)

theorem span_of_name {t t' : Token} (h : a.token t t' ∧ t.isName = true) :
    a.span t.span t'.span :=
  a.span_of h.1 (Token.not_eof_of_isName h.2)

theorem cover_spans {r r' s s' : Span} (hr : a.span r r') (hs : a.span s s') :
    a.span (r.cover s) (r'.cover s') :=
  a.cover (a.place_span hr) hs

/-- Tokens that correspond, with the same neighbours touching and no end among them. -/
inductive Runs : List Token → List Token → Prop where
  | nil : Runs [] []
  | cons {t t' : Token} {ts ts' : List Token} (head : a.token t t') (inside : t.isEof = false)
      (touch : ∀ u ∈ ts.head?, ∀ u' ∈ ts'.head?,
        (u.span.start = t.span.stop ↔ u'.span.start = t'.span.stop))
      (tail : Runs ts ts') : Runs (t :: ts) (t' :: ts')

/-- Cursors that stand between corresponding tokens. -/
structure Cursors (c c' : Cursor) : Prop where
  last : a.span c.last c'.last
  rest : a.Runs c.rest c'.rest
  stop : a.token (.eof c.stop) (.eof c'.stop)

/-- The same limit, first exceeded at corresponding places or not at all. -/
structure Nestings (n n' : Nesting) : Prop where
  limit : n.limit = n'.limit
  exceeded : Option.Rel a.place n.exceeded n'.exceeded

/-- The same fault at corresponding places. -/
structure Errors (e e' : SyntaxError) : Prop where
  fault : e.fault = e'.fault
  span : a.place e.span e'.span

/-- Outcomes that correspond. -/
inductive Steps {α : Type} (R : α → α → Prop) : Step α → Step α → Prop where
  | ok {v v' : α} {c c' : Cursor} {n n' : Nesting} (value : R v v') (cursor : a.Cursors c c')
      (nesting : a.Nestings n n') : Steps R (.ok v c n) (.ok v' c' n')
  | fail {e e' : SyntaxError} {n n' : Nesting} (error : a.Errors e e')
      (nesting : a.Nestings n n') : Steps R (.fail e n) (.fail e' n')

/-- Outcomes of an observed parse that correspond. -/
inductive Outcomes {α : Type} (R : α → α → Prop) :
    Except SyntaxError α → Except SyntaxError α → Prop where
  | ok {v v' : α} (value : R v v') : Outcomes R (.ok v) (.ok v')
  | error {e e' : SyntaxError} (error : a.Errors e e') : Outcomes R (.error e) (.error e')

/-! ## Tokens -/

section Tokens

variable {a} {t t' : Token}

theorem isSymbol_eq (h : a.token t t') (s : Symbol) : t.isSymbol s = t'.isSymbol s := by
  rw [Token.isSymbol, Token.isSymbol, a.kind_eq h]

theorem isAnySymbol_eq (h : a.token t t') (ss : List Symbol) :
    t.isAnySymbol ss = t'.isAnySymbol ss :=
  congrArg ss.any (funext fun s => isSymbol_eq h s)

theorem isWord_eq (h : a.token t t') (w : String) : t.isWord w = t'.isWord w := by
  rw [Token.isWord, Token.isWord, a.kind_eq h, a.text_eq h]

theorem isAnyWord_eq (h : a.token t t') (ws : List String) : t.isAnyWord ws = t'.isAnyWord ws :=
  congrArg ws.any (funext fun w => isWord_eq h w)

theorem isIdentifier_eq (h : a.token t t') : t.isIdentifier = t'.isIdentifier := by
  rw [Token.isIdentifier, Token.isIdentifier, a.kind_eq h]

theorem isName_eq (h : a.token t t') : t.isName = t'.isName := by
  rw [Token.isName, Token.isName, isIdentifier_eq h, a.text_eq h]

theorem isEof_eq (h : a.token t t') : t.isEof = t'.isEof := by
  rw [Token.isEof, Token.isEof, a.kind_eq h]

theorem isLiteral_eq (h : a.token t t') : t.isLiteral = t'.isLiteral := by
  rw [Token.isLiteral, Token.isLiteral, a.kind_eq h]

/-- A test of tokens that corresponding tokens pass alike. -/
def Tests (a : Alignment) (p : Token → Bool) : Prop := ∀ t t', a.token t t' → p t = p t'

end Tokens

/-! ## Cursors -/

section Cursors

variable {a} {c c' : Cursor}

theorem Runs.length_eq {ts ts' : List Token} (h : a.Runs ts ts') : ts.length = ts'.length := by
  induction h with
  | nil => rfl
  | cons _ _ _ _ ih => rw [List.length_cons, List.length_cons, ih]

theorem Runs.forall₂ {ts ts' : List Token} (h : a.Runs ts ts') : List.Forall₂ a.token ts ts' := by
  induction h with
  | nil => exact .nil
  | cons head _ _ _ ih => exact .cons head ih

theorem Cursors.peek (h : a.Cursors c c') : a.token c.peek c'.peek := by
  obtain ⟨last, rest, stop⟩ := c
  obtain ⟨last', rest', stop'⟩ := c'
  cases h.rest with
  | nil => exact h.stop
  | cons head _ _ _ => exact head

theorem Runs.getElem? {ts ts' : List Token} (h : a.Runs ts ts') (k : Nat) :
    Option.Rel a.token ts[k]? ts'[k]? := by
  induction h generalizing k with
  | nil => exact .none
  | cons head _ _ _ ih =>
    cases k with
    | zero => exact .some head
    | succ k => exact ih k

theorem Cursors.peekAt (h : a.Cursors c c') (k : Nat) : a.token (c.peekAt k) (c'.peekAt k) := by
  have hk := h.rest.getElem? k
  unfold Cursor.peekAt
  revert hk
  generalize c.rest[k]? = t, c'.rest[k]? = t'
  rintro (head | -)
  · exact head
  · exact h.stop

theorem Cursors.next (h : a.Cursors c c') : a.Cursors c.next c'.next := by
  obtain ⟨last, rest, stop⟩ := c
  obtain ⟨last', rest', stop'⟩ := c'
  cases h.rest with
  | nil => exact h
  | cons head inside _ tail => exact ⟨a.span_of head inside, tail, h.stop⟩

/-- The next two tokens touch in both files or in neither. -/
theorem Cursors.touch (h : a.Cursors c c') (hname : (c.peekAt 1).isEof = false) :
    (c.peekAt 1).span.start = c.peek.span.stop ↔ (c'.peekAt 1).span.start = c'.peek.span.stop := by
  obtain ⟨last, rest, stop⟩ := c
  obtain ⟨last', rest', stop'⟩ := c'
  -- nothing but the end of the text stands behind the last token
  cases h.rest with
  | nil => simp [Cursor.peekAt, Token.eof, Token.isEof] at hname
  | cons _ _ touch tail =>
    cases tail with
    | nil => simp [Cursor.peekAt, Token.eof, Token.isEof] at hname
    | cons _ _ _ _ => exact touch _ rfl _ rfl

end Cursors

end Alignment

/-! ## Parses -/

namespace Parse

/-- Parses that give corresponding outcomes at corresponding cursors. -/
def Aligned (a : Alignment) {α : Type} (R : α → α → Prop) (p q : Parse α) : Prop :=
  ∀ ⦃c c' : Cursor⦄, a.Cursors c c' → ∀ ⦃n n' : Nesting⦄, a.Nestings n n' →
    a.Steps R (p c n) (q c' n')

/-- Parses that give corresponding outcomes at corresponding cursors of a kind. -/
def AlignedWhere (a : Alignment) (P : Cursor → Prop) {α : Type} (R : α → α → Prop)
    (p q : Parse α) : Prop :=
  ∀ ⦃c c' : Cursor⦄, a.Cursors c c' → P c → ∀ ⦃n n' : Nesting⦄, a.Nestings n n' →
    a.Steps R (p c n) (q c' n')

section Aligned

variable {a : Alignment} {α β : Type} {R : α → α → Prop} {Q : β → β → Prop}
variable {p q : Parse α}

theorem aligned_pure {v v' : α} (h : R v v') : Aligned a R (Pure.pure v) (Pure.pure v') :=
  fun _ _ hc _ _ hn => .ok h hc hn

theorem Aligned.bind {f g : α → Parse β} (hp : Aligned a R p q)
    (hf : ∀ v v', R v v' → Aligned a Q (f v) (g v')) : Aligned a Q (p >>= f) (q >>= g) := by
  intro c c' hc n n' hn
  show a.Steps Q (Parse.bind p f c n) (Parse.bind q g c' n')
  unfold Parse.bind
  have h := hp hc hn
  revert h
  generalize p c n = x, q c' n' = y
  rintro (⟨value, cursor, nesting⟩ | ⟨error, nesting⟩)
  · exact hf _ _ value cursor nesting
  · exact .fail error nesting

/-- What follows a parse of plain values is given the same value on both sides. -/
theorem Aligned.bind_eq {f g : α → Parse β} (hp : Aligned a Eq p q)
    (hf : ∀ v, Aligned a Q (f v) (g v)) : Aligned a Q (p >>= f) (q >>= g) := by
  refine hp.bind fun v v' hv => ?_
  rw [← hv]
  exact hf v

theorem Aligned.mono {R' : α → α → Prop} (hp : Aligned a R p q)
    (h : ∀ v v', R v v' → R' v v') : Aligned a R' p q := by
  intro c c' hc n n' hn
  have hpq := hp hc hn
  revert hpq
  generalize p c n = x, q c' n' = y
  rintro (⟨value, cursor, nesting⟩ | ⟨error, nesting⟩)
  · exact .ok (h _ _ value) cursor nesting
  · exact .fail error nesting

theorem aligned_throw {e e' : SyntaxError} (h : a.Errors e e') :
    Aligned a R (Parse.throw e) (Parse.throw e') :=
  fun _ _ _ _ _ hn => .fail h hn

theorem aligned_cursor : Aligned a a.Cursors Parse.cursor Parse.cursor :=
  fun _ _ hc _ _ hn => .ok hc hc hn

theorem aligned_rewind {c c' : Cursor} (h : a.Cursors c c') :
    Aligned a Eq (Parse.rewind c) (Parse.rewind c') :=
  fun _ _ _ _ _ hn => .ok rfl h hn

theorem aligned_exceeded : Aligned a Eq Parse.exceeded Parse.exceeded := by
  intro c c' hc n n' hn
  refine .ok ?_ hc hn
  have h := hn.exceeded
  revert h
  generalize n.exceeded = x, n'.exceeded = y
  rintro (_ | _) <;> rfl

theorem Aligned.observe (hp : Aligned a R p q) :
    Aligned a (a.Outcomes R) (Parse.observe p) (Parse.observe q) := by
  intro c c' hc n n' hn
  unfold Parse.observe
  have h := hp hc hn
  revert h
  generalize p c n = x, q c' n' = y
  rintro (⟨value, cursor, nesting⟩ | ⟨error, nesting⟩)
  · exact .ok (.ok value) cursor nesting
  · exact .ok (.error error) hc nesting

theorem Aligned.attempt (hp : Aligned a R p q) :
    Aligned a (Option.Rel R) (Parse.attempt p) (Parse.attempt q) := by
  intro c c' hc n n' hn
  unfold Parse.attempt
  have h := hp hc hn
  revert h
  generalize p c n = x, q c' n' = y
  rintro (⟨value, cursor, nesting⟩ | ⟨error, nesting⟩)
  · exact .ok (.some value) cursor nesting
  · exact .ok .none hc nesting

/-- Both loops are given as many steps. -/
theorem aligned_bounded {f g : Nat → Parse α} (h : ∀ k, Aligned a R (f k) (g k)) :
    Aligned a R (Parse.bounded f) (Parse.bounded g) := by
  intro c c' hc n n' hn
  unfold Parse.bounded
  rw [← hc.rest.length_eq]
  exact h _ hc hn

theorem aligned_tooDeep : Aligned a R Parse.tooDeep Parse.tooDeep := by
  intro c c' hc n n' hn
  -- the place reported is the first one, in an earlier attempt or here
  have hspan : a.place (n.exceeded.getD c.peek.span) (n'.exceeded.getD c'.peek.span) := by
    have h := hn.exceeded
    revert h
    generalize n.exceeded = x, n'.exceeded = y
    rintro (h | _)
    · exact h
    · exact a.place_of hc.peek
  refine .fail ⟨?_, hspan⟩ ⟨hn.limit, .some hspan⟩
  rw [hn.limit]

/-! ### Single tokens -/

theorem aligned_peek : Aligned a a.token Parse.peek Parse.peek :=
  fun _ _ hc _ _ hn => .ok hc.peek hc hn

theorem Aligned.where (h : Aligned a R p q) (P : Cursor → Prop) : AlignedWhere a P R p q :=
  fun _ _ hc _ _ _ hn => h hc hn

/-- What follows a look at the next token may use that it is the next. -/
theorem aligned_peek_where {f g : Token → Parse β}
    (h : ∀ t t', a.token t t' → AlignedWhere a (·.peek = t) Q (f t) (g t')) :
    Aligned a Q (Parse.peek >>= f) (Parse.peek >>= g) :=
  fun _ _ hc _ _ hn => h _ _ hc.peek hc rfl hn

theorem aligned_peekAt (k : Nat) : Aligned a a.token (Parse.peekAt k) (Parse.peekAt k) :=
  fun _ _ hc _ _ hn => .ok (hc.peekAt k) hc hn

theorem aligned_here : Aligned a a.place Parse.here Parse.here :=
  fun _ _ hc _ _ hn => .ok (a.place_of hc.peek) hc hn

theorem aligned_last : Aligned a a.span Parse.last Parse.last :=
  fun _ _ hc _ _ hn => .ok hc.last hc hn

theorem aligned_advance : Aligned a a.token Parse.advance Parse.advance :=
  fun _ _ hc _ _ hn => .ok hc.peek hc.next hn

theorem aligned_at (s : Symbol) : Aligned a Eq (Parse.at? s) (Parse.at? s) :=
  fun _ _ hc _ _ hn => .ok (Alignment.isSymbol_eq hc.peek s) hc hn

theorem aligned_atAny (ss : List Symbol) : Aligned a Eq (Parse.atAny? ss) (Parse.atAny? ss) :=
  fun _ _ hc _ _ hn => .ok (Alignment.isAnySymbol_eq hc.peek ss) hc hn

theorem aligned_atWord (w : String) : Aligned a Eq (Parse.atWord? w) (Parse.atWord? w) :=
  fun _ _ hc _ _ hn => .ok (Alignment.isWord_eq hc.peek w) hc hn

theorem aligned_eat (s : Symbol) : Aligned a Eq (Parse.eat s) (Parse.eat s) := by
  intro c c' hc n n' hn
  unfold Parse.eat
  rw [← Alignment.isSymbol_eq hc.peek s]
  split
  · exact .ok rfl hc.next hn
  · exact .ok rfl hc hn

theorem aligned_eatWord (w : String) : Aligned a Eq (Parse.eatWord w) (Parse.eatWord w) := by
  intro c c' hc n n' hn
  unfold Parse.eatWord
  rw [← Alignment.isWord_eq hc.peek w]
  split
  · exact .ok rfl hc.next hn
  · exact .ok rfl hc hn

theorem aligned_expected (what : Expectation) :
    Aligned a R (Parse.expected what) (Parse.expected what) := by
  intro c c' hc n n' hn
  unfold Parse.expected
  rw [← Alignment.isEof_eq hc.peek, ← a.text_eq hc.peek]
  exact .fail ⟨rfl, a.place_of hc.peek⟩ hn

theorem aligned_expect (s : Symbol) :
    Aligned a (fun t t' => a.token t t' ∧ t.isSymbol s = true) (Parse.expect s)
      (Parse.expect s) := by
  intro c c' hc n n' hn
  unfold Parse.expect
  rw [← Alignment.isSymbol_eq hc.peek s]
  split
  · rename_i hs
    exact .ok ⟨hc.peek, hs⟩ hc.next hn
  · exact aligned_expected _ hc hn

theorem aligned_expectWord (w : String) :
    Aligned a (fun t t' => a.token t t' ∧ t.isWord w = true) (Parse.expectWord w)
      (Parse.expectWord w) := by
  intro c c' hc n n' hn
  unfold Parse.expectWord
  rw [← Alignment.isWord_eq hc.peek w]
  split
  · rename_i hword
    exact .ok ⟨hc.peek, hword⟩ hc.next hn
  · exact aligned_expected _ hc hn

theorem aligned_expectName :
    Aligned a (fun t t' => a.token t t' ∧ t.isName = true) Parse.expectName Parse.expectName := by
  intro c c' hc n n' hn
  unfold Parse.expectName
  rw [← Alignment.isName_eq hc.peek]
  split
  · rename_i hname
    exact .ok ⟨hc.peek, hname⟩ hc.next hn
  · exact aligned_expected _ hc hn

theorem aligned_require (s : Symbol) : Aligned a Eq (Parse.require s) (Parse.require s) := by
  intro c c' hc n n' hn
  unfold Parse.require
  rw [← Alignment.isSymbol_eq hc.peek s]
  split
  · exact .ok rfl hc hn
  · exact aligned_expected _ hc hn

/-! ### Lists -/

theorem Aligned.commaListWithin (hp : Aligned a R p q) (k : Nat) :
    Aligned a (List.Forall₂ R) (Parse.commaListWithin p k) (Parse.commaListWithin q k) := by
  induction k with
  | zero =>
    refine hp.bind fun v v' hv => ?_
    exact aligned_pure (.cons hv .nil)
  | succ k ih =>
    refine hp.bind fun v v' hv => ?_
    refine (aligned_eat _).bind_eq fun b => ?_
    split
    · refine ih.bind fun vs vs' hvs => ?_
      exact aligned_pure (.cons hv hvs)
    · exact aligned_pure (.cons hv .nil)

theorem Aligned.commaList (hp : Aligned a R p q) :
    Aligned a (List.Forall₂ R) (Parse.commaList p) (Parse.commaList q) :=
  aligned_bounded hp.commaListWithin

theorem Aligned.itemsWithin (close : Symbol) (hp : Aligned a R p q) (k : Nat) :
    Aligned a (List.Forall₂ R) (Parse.itemsWithin close p k) (Parse.itemsWithin close q k) := by
  induction k with
  | zero =>
    refine (aligned_at close).bind_eq fun b => ?_
    split
    · exact aligned_pure .nil
    · refine hp.bind fun v v' hv => ?_
      exact aligned_pure (.cons hv .nil)
  | succ k ih =>
    refine (aligned_at close).bind_eq fun b => ?_
    split
    · exact aligned_pure .nil
    · refine hp.bind fun v v' hv => ?_
      refine (aligned_eat _).bind_eq fun b => ?_
      split
      · refine ih.bind fun vs vs' hvs => ?_
        exact aligned_pure (.cons hv hvs)
      · exact aligned_pure (.cons hv .nil)

theorem Aligned.itemsUntil (close : Symbol) (hp : Aligned a R p q) :
    Aligned a (List.Forall₂ R) (Parse.itemsUntil close p) (Parse.itemsUntil close q) := by
  refine (aligned_bounded (hp.itemsWithin close)).bind fun vs vs' hvs => ?_
  refine (aligned_expect close).bind fun _ _ _ => ?_
  exact aligned_pure hvs

end Aligned

end Parse

end GatewayPolicy
