import GatewayPolicy.Authoring.Unit
import GatewayPolicy.Proofs.Lexical.Spelling
import Mathlib.Data.List.Forall2

/-! # Running parses on known tokens

  When the tokens in front of a cursor are known, a parse can be run on them by rewriting:
  each primitive looks at the first tokens, and what it decides can be computed. Only the
  places of tokens stay unknown, and they decide nothing.

  - The lemmas named `run_…` run the primitives.
  - `Parse.Reads p fs Q` says that `p` takes the tokens spelt `fs` wherever the end of a
    value follows, and gives a value that satisfies `Q`.
  - `Parse.assignment_reads` reduces reading an expression without operators to reading a
    primary expression, and `Parse.itemsWithin_reads` runs a list of entries.
-/

namespace GatewayPolicy

/-! ## Tokens that are known up to their place -/

namespace Token

variable {k : TokenKind} {text : String} {span : Span}

@[simp] theorem isSymbol_mk (s : Symbol) :
    isSymbol ⟨k, text, span⟩ s = decide (k = .symbol s) := rfl

@[simp] theorem isWord_mk (word : String) :
    isWord ⟨k, text, span⟩ word = (decide (k = .identifier) && decide (text = word)) := rfl

@[simp] theorem isIdentifier_mk : isIdentifier ⟨k, text, span⟩ = decide (k = .identifier) := rfl

@[simp] theorem isName_mk :
    isName ⟨k, text, span⟩ = (decide (k = .identifier) && !isReserved text) := rfl

@[simp] theorem isEof_mk : isEof ⟨k, text, span⟩ = decide (k = .eof) := rfl

@[simp] theorem isAnySymbol_mk (ss : List Symbol) :
    isAnySymbol ⟨k, text, span⟩ ss = ss.any fun s => decide (k = .symbol s) := rfl

@[simp] theorem isAnyWord_mk (words : List String) : isAnyWord ⟨k, text, span⟩ words =
    words.any fun word => decide (k = .identifier) && decide (text = word) := rfl

end Token

/-- Tokens that are spelt in a known way are known up to their places. -/
theorem map_face_eq_cons {ts : List Token} {k : TokenKind} {text : String}
    {fs : List (TokenKind × String)} : ts.map Token.face = (k, text) :: fs ↔
      ∃ span us, ts = ⟨k, text, span⟩ :: us ∧ us.map Token.face = fs := by
  constructor
  · intro h
    obtain ⟨⟨k', text', span⟩, us, rfl, hface, hus⟩ := List.map_eq_cons_iff.1 h
    cases hface
    exact ⟨span, us, rfl, hus⟩
  · rintro ⟨span, us, rfl, hus⟩
    rw [List.map_cons, hus]
    rfl

namespace Cursor

variable {l stop : Span} {t : Token} {ts : List Token}

@[simp] theorem peek_cons : peek ⟨l, t :: ts, stop⟩ = t := rfl

@[simp] theorem peek_nil : peek ⟨l, [], stop⟩ = .eof stop := rfl

@[simp] theorem peekAt_cons (k : Nat) :
    peekAt ⟨l, t :: ts, stop⟩ (k + 1) = peekAt ⟨l, ts, stop⟩ k := rfl

@[simp] theorem peekAt_zero : peekAt ⟨l, t :: ts, stop⟩ 0 = t := rfl

@[simp] theorem next_cons : next ⟨l, t :: ts, stop⟩ = ⟨t.span, ts, stop⟩ := rfl

end Cursor

/-! ## Primitives -/

namespace Parse

variable {α β : Type}

section Primitives

variable (c : Cursor) (n : Nesting)

@[simp] theorem run_bind (p : Parse α) (f : α → Parse β) : (p >>= f) c n =
    match p c n with
    | .ok a d m => f a d m
    | .fail e m => .fail e m := rfl

@[simp] theorem run_pure (v : α) : (Pure.pure v : Parse α) c n = .ok v c n := rfl

@[simp] theorem run_cursor : cursor c n = .ok c c n := rfl

@[simp] theorem run_rewind (earlier : Cursor) : rewind earlier c n = .ok () earlier n := rfl

@[simp] theorem run_bounded (loop : Nat → Parse α) :
    bounded loop c n = loop c.rest.length c n := rfl

@[simp] theorem run_peek : peek c n = .ok c.peek c n := rfl

@[simp] theorem run_peekAt (k : Nat) : peekAt k c n = .ok (c.peekAt k) c n := rfl

@[simp] theorem run_here : here c n = .ok c.peek.span c n := rfl

@[simp] theorem run_last : last c n = .ok c.last c n := rfl

@[simp] theorem run_advance : advance c n = .ok c.peek c.next n := rfl

@[simp] theorem run_takeWhile (p : Token → Bool) :
    takeWhile p c n = .ok (c.rest.takeWhile p) (c.skipWhile p) n := rfl

@[simp] theorem run_at (s : Symbol) : at? s c n = .ok (c.peek.isSymbol s) c n := rfl

@[simp] theorem run_atAny (ss : List Symbol) :
    atAny? ss c n = .ok (c.peek.isAnySymbol ss) c n := rfl

@[simp] theorem run_atWord (w : String) : atWord? w c n = .ok (c.peek.isWord w) c n := rfl

@[simp] theorem run_eat (s : Symbol) : eat s c n =
    if c.peek.isSymbol s then .ok true c.next n else .ok false c n := rfl

@[simp] theorem run_eatWord (w : String) : eatWord w c n =
    if c.peek.isWord w then .ok true c.next n else .ok false c n := rfl

@[simp] theorem run_expect (s : Symbol) : expect s c n =
    if c.peek.isSymbol s then .ok c.peek c.next n else expected (.symbol s) c n := rfl

@[simp] theorem run_expectWord (w : String) : expectWord w c n =
    if c.peek.isWord w then .ok c.peek c.next n else expected (.word w) c n := rfl

@[simp] theorem run_expectName : expectName c n =
    if c.peek.isName then .ok c.peek c.next n else expected .identifier c n := rfl

@[simp] theorem run_attempt (p : Parse α) : attempt p c n =
    match p c n with
    | .ok a d m => .ok (some a) d m
    | .fail _ m => .ok none c m := rfl

@[simp] theorem run_observe (p : Parse α) : observe p c n =
    match p c n with
    | .ok a d m => .ok (.ok a) d m
    | .fail e m => .ok (.error e) c m := rfl

end Primitives

/-! ## Types -/

/-- A type that is one name is read up to the token behind it. -/
theorem run_typeName {word : String} (hword : isReserved word = false ∨ word ∈ typeKeywords)
    {l stop span : Span} {next : Token} {ts : List Token} (n : Nesting)
    (hnext : next.isAnySymbol [.less, .dot, .doubleColon, .question, .openBracket] = false) :
    typeName ⟨l, ⟨.identifier, word, span⟩ :: next :: ts, stop⟩ n =
      .ok word ⟨span, next :: ts, stop⟩ n := by
  have hnames : Token.namesType ⟨.identifier, word, span⟩ = true := by
    rcases hword with hword | hword
    · simp [Token.namesType, hword]
    · simp [Token.namesType, hword]
  simp only [Token.isAnySymbol, List.any_cons, List.any_nil, Bool.or_eq_false_iff] at hnext
  -- a type may be as deep as there are tokens, and there are at least two
  show typeWithin (ts.length + 2) _ n = _
  simp [typeWithin, typeOf, typePathWithin, typeEndingWithin, hnames, hnext,
    Token.isAnySymbol, Cursor.tokensTo, typeText]

/-! ## Declarations -/

/-- No attributes are in front of a word. -/
theorem run_attributeLists (g : Grammar) (word : String) (n : Nesting) (l stop span : Span)
    (ts : List Token) : attributeLists g ⟨l, ⟨.identifier, word, span⟩ :: ts, stop⟩ n =
      .ok [] ⟨l, ⟨.identifier, word, span⟩ :: ts, stop⟩ n := by
  simp [attributeLists, attributeListsWithin]

/-- A word that is no modifier is left where it is. -/
theorem run_modifiers {word : String} (hword : word ∉ modifierWords) (n : Nesting)
    (l stop span : Span) (ts : List Token) :
    modifiers ⟨l, ⟨.identifier, word, span⟩ :: ts, stop⟩ n =
      .ok [] ⟨l, ⟨.identifier, word, span⟩ :: ts, stop⟩ n := by
  have hno : Token.isAnyWord ⟨.identifier, word, span⟩ modifierWords = false := by
    apply List.any_eq_false.2
    intro w hw
    have hne : word ≠ w := fun heq => hword (heq ▸ hw)
    simp [hne]
  simp [modifiers, Cursor.skipWhile, hno]

/-- Nothing is left at the end of a file. -/
theorem run_contentsWithin (g : CodeGrammar) (steps : Nat) (n : Nesting) (l stop : Span) :
    contentsWithin g steps false ⟨l, [], stop⟩ n = .ok {} ⟨l, [], stop⟩ n := by
  cases steps <;> simp [contentsWithin, Token.eof]

/-! ## Expressions without operators -/

end Parse

/-- Whether a token ends a value. -/
def Token.endsValue (t : Token) : Bool := t.isAnySymbol [.comma, .closeBrace, .semicolon]

/-- The first of some tokens ends a value. -/
def EndsValue (ts : List Token) : Prop := ts.head?.any Token.endsValue = true

/-- Where a value ends, one of three symbols stands. -/
theorem EndsValue.cases {rest : List Token} (h : EndsValue rest) :
    ∃ s text span ts, rest = ⟨.symbol s, text, span⟩ :: ts ∧
      (s = .comma ∨ s = .closeBrace ∨ s = .semicolon) := by
  cases rest with
  | nil => cases h
  | cons t ts =>
    obtain ⟨k, text, span⟩ := t
    obtain ⟨s, hs, hk⟩ := List.any_eq_true.1 h
    have hk : k = .symbol s := by simpa using hk
    rw [hk]
    exact ⟨s, text, span, ts, rfl, by simpa using hs⟩

namespace Parse

/-- Nothing follows a primary expression at the end of a value. -/
theorem run_trailers {rest : List Token} (h : EndsValue rest) (g : Grammar) (e : Expr)
    (l stop : Span) (n : Nesting) : trailers g e ⟨l, rest, stop⟩ n = .ok e ⟨l, rest, stop⟩ n := by
  obtain ⟨s, text, span, ts, rfl, rfl | rfl | rfl⟩ := h.cases <;>
    simp [trailers, trailersWithin]

/-- No operator follows at the end of a value. -/
theorem run_operandsWithin {rest : List Token} (h : EndsValue rest) (g : Grammar) (least : Nat)
    (e : Expr) (l stop : Span) (n : Nesting) :
    operandsWithin g rest.length least e ⟨l, rest, stop⟩ n = .ok e ⟨l, rest, stop⟩ n := by
  obtain ⟨s, text, span, ts, rfl, rfl | rfl | rfl⟩ := h.cases <;>
    simp [operandsWithin, binaryOperator?, BinaryOp.ofSymbol?]

/-- A token that a value starts with: a literal or `new`. -/
def startsValue (t : Token) : Bool := t.isLiteral || t.isWord "new"

theorem startsValue_facts {t : Token} (h : startsValue t = true) :
    t.isName = false ∧ t.isWord "async" = false ∧ t.isSymbol .openParen = false ∧
      ∀ next, leadingOperator? t next = none := by
  obtain ⟨k, text, span⟩ := t
  rcases (Bool.or_eq_true _ _).mp h with h | h
  · cases k <;> simp_all [Token.isLiteral, leadingOperator?]
  · have hnew : k = .identifier ∧ text = "new" := by simpa using h
    obtain ⟨rfl, rfl⟩ := hnew
    simp [leadingOperator?]
    decide

/-- How a token that a value starts with is spelt. -/
def StartsValue (fs : List (TokenKind × String)) : Prop :=
  ∃ f fs', fs = f :: fs' ∧ ∀ span, startsValue ⟨f.1, f.2, span⟩ = true

/-- A value starts with no symbol. -/
theorem StartsValue.head {fs : List (TokenKind × String)} (h : StartsValue fs) (s : Symbol) :
    ∃ f fs', fs = f :: fs' ∧ f.1 ≠ .symbol s := by
  obtain ⟨⟨k, text⟩, fs', hfs, hstart⟩ := h
  refine ⟨_, fs', hfs, ?_⟩
  rintro rfl
  cases hstart default

/-- No lambda starts where a value starts. -/
theorem run_lambda {c : Cursor} (h : startsValue c.peek = true) (g : Grammar) (n : Nesting) :
    lambda? g c n = .ok none c n := by
  obtain ⟨hname, hasync, hparen, -⟩ := startsValue_facts h
  simp [lambda?, lambdaParameters?, hname, hasync, hparen]

/-- A primary expression at the end of a value is an operand. -/
theorem run_unaryOf {g : Grammar} {c : Cursor} {n : Nesting} {e : Expr} {l stop : Span}
    {rest : List Token} (hstart : startsValue c.peek = true)
    (hprimary : primary g c n = .ok e ⟨l, rest, stop⟩ n) (hend : EndsValue rest) :
    unaryOf g c n = .ok e ⟨l, rest, stop⟩ n := by
  obtain ⟨-, -, hparen, hleading⟩ := startsValue_facts hstart
  simp [unaryOf, hleading, hparen, hprimary, run_trailers hend]

/-- A primary expression at the end of a value is the whole expression. -/
theorem run_assignment {levels : Nat} {c : Cursor} {n : Nesting} {e : Expr} {l stop : Span}
    {rest : List Token} (hstart : startsValue c.peek = true)
    (hprimary : primary (Grammar.within levels) c n = .ok e ⟨l, rest, stop⟩ n)
    (hend : EndsValue rest) :
    (Grammar.within (levels + 2)).assignment c n = .ok e ⟨l, rest, stop⟩ n := by
  -- the expression takes one level, and its operand another
  show assignmentOf (Grammar.within (levels + 1)) c n = _
  have hunary : (Grammar.within (levels + 1)).unary c n = .ok e ⟨l, rest, stop⟩ n :=
    run_unaryOf hstart hprimary hend
  have hoperands : operands (Grammar.within (levels + 1)) 1 c n = .ok e ⟨l, rest, stop⟩ n := by
    simp [operands, hunary, run_operandsWithin hend]
  have hconditional : conditional (Grammar.within (levels + 1)) c n =
      .ok e ⟨l, rest, stop⟩ n := by
    obtain ⟨s, text, span, ts, rfl, rfl | rfl | rfl⟩ := hend.cases <;>
      simp [conditional, hoperands]
  obtain ⟨s, text, span, ts, rfl, rfl | rfl | rfl⟩ := hend.cases <;>
    simp [assignmentOf, run_lambda hstart, hconditional, AssignOp.ofSymbol?]

end Parse

/-! ## Reading what is spelt -/

/-- The token that a symbol is, at some place. -/
abbrev Symbol.token (s : Symbol) (span : Span) : Token := ⟨.symbol s, s.text, span⟩

/-- Spellings with a comma between each two of them. -/
def separated : List (List (TokenKind × String)) → List (TokenKind × String)
  | [] => []
  | fs :: rest => fs ++ (if rest.isEmpty then [] else [Symbol.comma.face]) ++ separated rest

namespace Parse

variable {α β : Type}

/-- Wherever tokens spelt `fs` stand in front of the end of a value, the parse takes them and
    gives a value that satisfies `Q`. -/
def Reads (p : Parse α) (fs : List (TokenKind × String)) (Q : α → Prop) : Prop :=
  ∀ (n : Nesting) (l stop : Span) {ts rest : List Token}, ts.map Token.face = fs →
    EndsValue rest → ∃ v l', p ⟨l, ts ++ rest, stop⟩ n = .ok v ⟨l', rest, stop⟩ n ∧ Q v

/-- Entries with commas between them are read up to the brace behind them. -/
theorem itemsWithin_reads {item : Parse α} {spelling : β → List (TokenKind × String)}
    {Q : β → α → Prop} {bs : List β} (hitem : ∀ b ∈ bs, item.Reads (spelling b) (Q b))
    (hstart : ∀ b ∈ bs, ∃ f fs, spelling b = f :: fs ∧ f.1 ≠ .symbol .closeBrace)
    {ts : List Token} (hts : ts.map Token.face = separated (bs.map spelling)) {steps : Nat}
    (hsteps : ts.length ≤ steps) (n : Nesting) (l stop close : Span) (rest : List Token) :
    ∃ vs l', itemsWithin .closeBrace item steps
        ⟨l, ts ++ Symbol.closeBrace.token close :: rest, stop⟩ n =
      .ok vs ⟨l', Symbol.closeBrace.token close :: rest, stop⟩ n ∧ List.Forall₂ Q bs vs := by
  -- each entry takes at least one token, so the steps last as long as the tokens
  induction bs generalizing steps l ts with
  | nil =>
    obtain rfl := List.map_eq_nil_iff.1 hts
    refine ⟨[], l, ?_, .nil⟩
    cases steps <;> simp [itemsWithin]
  | cons b bs ih =>
    obtain ⟨hb, hbs⟩ := List.forall_mem_cons.1 hitem
    obtain ⟨hstartb, hstartbs⟩ := List.forall_mem_cons.1 hstart
    rw [List.map_cons, separated, List.append_assoc] at hts
    obtain ⟨us, vs, rfl, hus, hvs⟩ := List.map_eq_append_iff.1 hts
    -- the entry does not start with the brace
    obtain ⟨f, fs, hspelling, hf⟩ := hstartb
    obtain ⟨span, us', rfl, -⟩ := map_face_eq_cons.1 (hus.trans hspelling)
    rw [List.cons_append, List.length_cons] at hsteps
    obtain ⟨steps, rfl⟩ := Nat.exists_eq_add_of_le' (Nat.le_of_add_left_le hsteps)
    -- the last entry ends at the brace, and each other one at a comma
    cases bs with
    | nil =>
      obtain rfl := List.map_eq_nil_iff.1 hvs
      have hend : EndsValue (Symbol.closeBrace.token close :: rest) := rfl
      obtain ⟨v, l', hrun, hv⟩ := hb n l stop hus hend
      refine ⟨[v], l', ?_, .cons hv .nil⟩
      rw [List.cons_append] at hrun
      simp [itemsWithin, hf, hrun]
    | cons b' bs =>
      obtain ⟨comma, ws, rfl, hws⟩ := map_face_eq_cons.1 hvs
      have hend : EndsValue (Symbol.comma.token comma ::
          (ws ++ Symbol.closeBrace.token close :: rest)) := rfl
      obtain ⟨v, l', hrun, hv⟩ := hb n l stop hus hend
      have hfewer : ws.length ≤ steps := by
        rw [List.length_append, List.length_cons] at hsteps
        omega
      obtain ⟨vs, l'', hruns, hvs⟩ := ih hbs hstartbs hws hfewer comma
      refine ⟨v :: vs, l'', ?_, .cons hv hvs⟩
      rw [List.cons_append] at hrun
      simp [itemsWithin, hf, hrun, hruns]

/-- Entries in braces are read with the brace behind them. -/
theorem itemsUntil_reads {item : Parse α} {spelling : β → List (TokenKind × String)}
    {Q : β → α → Prop} {bs : List β} (hitem : ∀ b ∈ bs, item.Reads (spelling b) (Q b))
    (hstart : ∀ b ∈ bs, ∃ f fs, spelling b = f :: fs ∧ f.1 ≠ .symbol .closeBrace)
    {ts : List Token} (hts : ts.map Token.face = separated (bs.map spelling)) (n : Nesting)
    (l stop close : Span) (rest : List Token) :
    ∃ vs, itemsUntil .closeBrace item ⟨l, ts ++ Symbol.closeBrace.token close :: rest, stop⟩ n =
      .ok vs ⟨close, rest, stop⟩ n ∧ List.Forall₂ Q bs vs := by
  have hsteps : ts.length ≤ (ts ++ Symbol.closeBrace.token close :: rest).length := by
    rw [List.length_append]
    omega
  obtain ⟨vs, l', hrun, hvs⟩ := itemsWithin_reads hitem hstart hts hsteps n l stop close rest
  refine ⟨vs, ?_, hvs⟩
  simp only [itemsUntil, run_bind, run_bounded, hrun]
  simp

/-- An entry that starts like a value is an expression. -/
theorem initializerValue_reads {g : Grammar} {fs : List (TokenKind × String)} {Q : Expr → Prop}
    (h : g.assignment.Reads fs Q) (hstart : StartsValue fs) :
    (initializerValue g).Reads fs Q := by
  intro n l stop ts rest hts hend
  obtain ⟨v, l', hrun, hv⟩ := h n l stop hts hend
  obtain ⟨f, fs', rfl, hf⟩ := hstart.head .openBrace
  obtain ⟨span, us, rfl, -⟩ := map_face_eq_cons.1 hts
  refine ⟨v, l', ?_, hv⟩
  rw [List.cons_append] at hrun ⊢
  show initializerValueWithin g (us ++ rest).length.succ _ n = _
  simp [initializerValueWithin, hf, hrun]

/-- A field is read with its value. -/
theorem fieldValue_reads {value : Parse Expr} {fs : List (TokenKind × String)} {Q : Expr → Prop}
    (h : value.Reads fs Q) {name : String} (hname : isReserved name = false) :
    (fieldValue value).Reads ((.identifier, name) :: Symbol.assign.face :: fs)
      fun v => ∃ e span, v = .mk name e span ∧ Q e := by
  intro n l stop ts rest hts hend
  obtain ⟨nameSpan, us, rfl, hus⟩ := map_face_eq_cons.1 hts
  obtain ⟨assignSpan, vs, rfl, hvs⟩ := map_face_eq_cons.1 hus
  obtain ⟨e, l', hrun, he⟩ := h n assignSpan stop hvs hend
  refine ⟨.mk name e (nameSpan.cover e.span), l', ?_, e, _, rfl, he⟩
  simp [fieldValue, hname, hrun]

/-- A primary expression that starts like a value is read as the whole expression. -/
theorem assignment_reads {levels : Nat} {fs : List (TokenKind × String)} {Q : Expr → Prop}
    (hprimary : (primary (Grammar.within levels)).Reads fs Q) (hstart : StartsValue fs) :
    (Grammar.within (levels + 2)).assignment.Reads fs Q := by
  intro n l stop ts rest hts hend
  obtain ⟨e, l', hrun, he⟩ := hprimary n l stop hts hend
  obtain ⟨f, fs', rfl, hf⟩ := hstart
  obtain ⟨span, us, rfl, -⟩ := map_face_eq_cons.1 hts
  exact ⟨e, l', run_assignment (hf span) hrun hend, he⟩

end Parse

end GatewayPolicy
