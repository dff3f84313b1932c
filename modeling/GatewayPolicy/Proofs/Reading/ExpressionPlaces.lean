import GatewayPolicy.Proofs.Reading.Endings

/-! # Places of expressions

  Every production of the grammar lays its expression over the tokens that it takes. The
  productions call one another, so this is shown for a grammar one level deeper, and then
  for all levels by induction.

  - `Grammar.Places` is what the two productions that nest keep to.
  - Primary expressions and what is built from brackets are laid over all tokens taken.
    `Expr.KeptFrom` are those that reach from a token to where reading has come.
  - Behind an operand one exclamation mark may be taken (`trailersWithin_places`). What is
    built from operands drops it or keeps it with its last part.
-/

namespace GatewayPolicy

-- a production of many steps takes an instance for each of them
set_option synthInstance.maxSize 1024

/-- The productions that nest lay their expressions over what they take. -/
structure Grammar.Places (ts : List Token) (stop : Span) (g : Grammar) : Prop where
  assignment : ∀ {c d : Cursor} {n m : Nesting} {e : Expr} {i : Nat}, c.StandsAt ts stop i →
    g.assignment c n = .ok e d m → ∃ j, d.StandsAt ts stop j ∧ e.ReadBetween ts i j
  unary : ∀ {c d : Cursor} {n m : Nesting} {e : Expr} {i : Nat}, c.StandsAt ts stop i →
    g.unary c n = .ok e d m → ∃ j, d.StandsAt ts stop j ∧ e.OperandBetween ts i j

/-- An expression that reaches from `start` to where reading has come. -/
structure Expr.KeptFrom (start : Span) (e : Expr) (d : Cursor) : Prop where
  span : e.span = start.cover d.last
  keepsMark : e.keepsMark = false

namespace Parse

variable {ts : List Token} {stop : Span} {g : Grammar} {c d : Cursor} {n m : Nesting} {e : Expr}
  {i a : Nat}

theorem assignment_lays (hg : g.Places ts stop) :
    Collects (Cursor.Lays ts stop) (fun e => [e]) g.assignment where
  collects h := by
    intro i hc
    obtain ⟨j, hd, hread⟩ := hg.assignment hc h
    exact ⟨j, hd, hread.within (Nat.le_refl _)⟩

/-! ## Expressions up to where reading has come -/

/-- Where tokens are taken, the next one stands at the index of the cursor. -/
theorem stretch_peek (hc : c.StandsAt ts stop i) (h : c.Passes d) :
    JoinedFrom ts i i c.peek.span := by
  obtain ⟨taken, hne, htakes⟩ := h
  obtain ⟨t, taken, rfl⟩ := List.exists_cons_of_ne_nil hne
  have hrest : ts.drop i = t :: (taken ++ d.rest) := by
    rw [← hc.rest, htakes.rest]
    rfl
  have hpeek : c.peek = t := by
    rw [Cursor.peek, hc.rest, hrest]
    rfl
  rw [hpeek]
  apply JoinedFrom.token
  rw [← List.head?_drop, hrest]
  rfl

/-- A cursor stands at one index only. -/
theorem standsAt_unique {j : Nat} (hi : c.StandsAt ts stop i) (hj : c.StandsAt ts stop j) :
    i = j := by
  have hlength := congrArg List.length (hi.rest.symm.trans hj.rest)
  have hinside := hi.inside
  have hinside' := hj.inside
  rw [List.length_drop, List.length_drop] at hlength
  omega

/-- An expression that reaches from `start` to where reading has come is laid over all tokens
    up to there. -/
theorem closed_of_kept {start : Span} {k : Nat}
    (hstart : JoinedFrom ts i k start) (hk : k ≤ a) (hc : c.StandsAt ts stop a)
    (hplain : c.PassesPlain d) (hkept : e.KeptFrom start d)
    (hparts : ∃ j, d.StandsAt ts stop j ∧ Expr.LaidWithin ts i j e.parts) :
    ∃ j, d.StandsAt ts stop j ∧ e.ClosedBetween ts i j := by
  obtain ⟨j, hj, hd, hmark⟩ := hc.passesPlain hplain
  obtain ⟨j', hd', hparts⟩ := hparts
  obtain rfl := standsAt_unique hd hd'
  have hspan : JoinedFrom ts i j e.span := by
    rw [hkept.span]
    exact hd.stretch hstart (hk.trans hj)
  exact ⟨j + 1, hd, j, rfl, .intro hspan hparts, hmark, hkept.keepsMark⟩

/-- The same for an expression with no expressions inside. -/
theorem closed_of_kept_leaf {start : Span} {k : Nat}
    (hstart : JoinedFrom ts i k start) (hk : k ≤ a) (hc : c.StandsAt ts stop a)
    (hplain : c.PassesPlain d) (hkept : e.KeptFrom start d) (hparts : e.parts = []) :
    ∃ j, d.StandsAt ts stop j ∧ e.ClosedBetween ts i j := by
  obtain ⟨j, hj, hd, -⟩ := hc.passesPlain hplain
  have hle := hstart.le
  refine closed_of_kept hstart hk hc hplain hkept ⟨j + 1, hd, ?_⟩
  rw [hparts]
  exact .nil (by omega)

/-- A parse that ends with an expression up to where reading has come. -/
theorem finishes_kept {start : Span} {build : Span → Expr}
    (hbuild : ∀ s, (build s).span = s ∧ (build s).keepsMark = false) :
    Finishes (Expr.KeptFrom start) (do return build (start.cover (← last))) where
  fits h := by
    obtain ⟨_, _, _, hlast, h⟩ := bind_eq_ok h
    cases hlast
    cases h
    exact ⟨(hbuild _).1, (hbuild _).2⟩

/-! ## Indexing -/

theorem indexOf_places (hg : g.Places ts stop) {target : Expr}
    {k : Nat} (htarget : target.LaidOn ts i k) (hk : k < a) (hc : c.StandsAt ts stop a)
    (h : indexOf g target c n = .ok e d m) :
    ∃ j, d.StandsAt ts stop j ∧ e.ClosedBetween ts i j := by
  obtain ⟨arguments, c', _, harguments, h⟩ := bind_eq_ok h
  obtain ⟨b, hc', hlaid⟩ :=
    (commaList_argument_collects (assignment_lays hg) false).collects harguments hc
  obtain ⟨close, _, _, hclose, h⟩ := bind_eq_ok h
  cases h
  obtain ⟨hat, hd, hsymbol⟩ := hc'.expect hclose
  have hle := hlaid.le
  have hspan := htarget.span.upto (JoinedFrom.token hat)
    (htarget.le.trans (hk.le.trans hle)) (hk.le.trans hle)
  have hparts : Expr.LaidWithin ts i (b + 1) (target :: arguments.map Argument.value) :=
    .cons (Nat.le_refl _) htarget (hlaid.mono hk (Nat.le_succ b))
  exact ⟨b + 1, hd, b, rfl, .intro hspan hparts,
    not_markAt hat (Token.plain_of_isSymbol hsymbol (by decide)), rfl⟩

section Forward

variable [Grammar.Forward g]

/-! ## Calls -/

theorem argumentList_plain {arguments : List Argument}
    (h : argumentList g c n = .ok arguments d m) : c.PassesPlain d := by
  obtain ⟨_, c', _, hopen, h⟩ := bind_eq_ok h
  exact (Forward.reaches hopen).trans_plain (closed_plain (by decide) h)

/-- A call reaches from its target to the parenthesis behind its arguments. -/
theorem callOf_places (hg : g.Places ts stop) {target : Expr}
    {types : List String} {k : Nat} (htarget : target.LaidOn ts i k) (hk : k < a)
    (hc : c.StandsAt ts stop a) (h : callOf g target types c n = .ok e d m) :
    ∃ j, d.StandsAt ts stop j ∧ e.ClosedBetween ts i j := by
  obtain ⟨arguments, c', _, harguments, h⟩ := bind_eq_ok h
  obtain ⟨_, _, _, hlast, h⟩ := bind_eq_ok h
  cases hlast
  cases h
  obtain ⟨j, hd, hlaid⟩ := (argumentList_collects (assignment_lays hg)).collects harguments hc
  have hparts : Expr.LaidWithin ts i j (target :: arguments.map Argument.value) :=
    .cons (Nat.le_refl _) htarget (hlaid.mono hk (Nat.le_refl _))
  exact closed_of_kept htarget.span hk.le hc (argumentList_plain harguments) ⟨rfl, rfl⟩
    ⟨j, hd, hparts⟩

theorem genericCall_places (hg : g.Places ts stop)
    {target : Expr} (htarget : target.ClosedBetween ts i a) (hc : c.StandsAt ts stop a)
    (h : genericCall g target c n = .ok e d m) :
    ∃ j, d.StandsAt ts stop j ∧ e.ClosedBetween ts i j := by
  obtain ⟨_, _, _, hless, h⟩ := bind_eq_ok h
  cases hless
  split at h
  · obtain ⟨types?, c', _, htypes, h⟩ := bind_eq_ok h
    obtain ⟨a', ha', hc'⟩ := hc.forward htypes
    cases types? with
    | some types =>
      obtain ⟨k, hk, hlaid, -⟩ := htarget
      exact callOf_places hg hlaid (by omega) hc' h
    | none =>
      -- what was tried is given up, and the cursor stands where it stood
      unfold attempt at htypes
      split at htypes
      · cases htypes
      · cases htypes
        cases h
        exact ⟨a, hc, htarget⟩
  · cases h
    exact ⟨a, hc, htarget⟩

/-! ## New objects and arrays -/

instance endsPlain_initializerOf {value : Parse Expr} [Forward value] :
    EndsPlain (initializerOf value) := by
  have hopen : EndsPlain (expect .openBrace) := endsPlain_expect (by decide)
  have hclose : EndsPlain (eat .closeBrace) := endsPlain_eat (by decide)
  have hfields : EndsPlain (itemsUntil .closeBrace (fieldValue value)) :=
    endsPlain_itemsUntil (by decide)
  have helements : EndsPlain (itemsUntil .closeBrace value) := endsPlain_itemsUntil (by decide)
  unfold initializerOf
  infer_instance

instance strict_initializerOf {value : Parse Expr} [Forward value] :
    Strict (initializerOf value) := by
  unfold initializerOf
  infer_instance

/-- Braces in an initializer reach from the opening one to the closing one. -/
theorem initializerValueWithin_lays (hg : g.Places ts stop)
    (depth : Nat) :
    Collects (Cursor.Lays ts stop) (fun e => [e]) (initializerValueWithin g depth) := by
  induction depth with
  | zero => exact assignment_lays hg
  | succ depth ih =>
    have hforward := @forward_initializerValueWithin g _ depth
    have hends := @endsPlain_initializerOf (initializerValueWithin g depth) hforward
    have hstrict := @strict_initializerOf (initializerValueWithin g depth) hforward
    constructor
    intro c d n m e h i hc
    unfold initializerValueWithin at h
    split at h
    · obtain ⟨_, _, _, hhere, h⟩ := bind_eq_ok h
      cases hhere
      obtain ⟨braces, c', _, hbraces, h⟩ := bind_eq_ok h
      obtain ⟨_, _, _, hlast, h⟩ := bind_eq_ok h
      cases hlast
      cases h
      have hparts := (initializerOf_collects ih).collects hbraces hc
      have hstart := stretch_peek hc (hstrict.passes hbraces)
      have hplain := (hends.plain hbraces).passes (hstrict.passes hbraces)
      have hkept : (Expr.object none none braces (c.peek.span.cover d.last)).KeptFrom
          c.peek.span d := ⟨rfl, rfl⟩
      obtain ⟨j, hd, hclosed⟩ :=
        closed_of_kept hstart (Nat.le_refl _) hc hplain hkept hparts
      exact ⟨j, hd, hclosed.within⟩
    · exact (assignment_lays hg).collects h hc

theorem initializerValue_lays (hg : g.Places ts stop) :
    Collects (Cursor.Lays ts stop) (fun e => [e]) (initializerValue g) :=
  collects_bounded (initializerValueWithin_lays hg)

theorem array_kept (items : Parse (List Expr)) (start : Span) (type : Option String) :
    Finishes (Expr.KeptFrom start) (do
      let items ← items
      return .array type items (start.cover (← last))) := by
  have hkept : ∀ items, Finishes (Expr.KeptFrom start) (do
      return .array type items (start.cover (← last))) := fun items =>
    finishes_kept fun _ => ⟨rfl, rfl⟩
  infer_instance

instance newArray_kept (start : Span) (type : Option String) :
    Finishes (Expr.KeptFrom start) (newArray g start type) := by
  have harray := array_kept (do if ← eat .openBrace then elements g .closeBrace else return [])
    start (type.map elementType)
  unfold newArray
  infer_instance

instance endsPlain_newArray (start : Span) (type : Option String) :
    EndsPlain (newArray g start type) := by
  have hopen : EndsPlain (eat .openBrace) := endsPlain_eat (by decide)
  have helements : EndsPlain (elements g .closeBrace) := endsPlain_itemsUntil (by decide)
  unfold newArray
  infer_instance

instance newObject_kept (start : Span) (type : Option String) :
    Finishes (Expr.KeptFrom start) (newObject g start type) := by
  have hkept : ∀ arguments braces, Finishes (Expr.KeptFrom start) (do
      return .object type arguments braces (start.cover (← last))) := fun _ _ =>
    finishes_kept fun _ => ⟨rfl, rfl⟩
  unfold newObject
  infer_instance

instance : EndsPlain (argumentList g) where
  plain h := .inr (argumentList_plain h)

instance endsPlain_newObject (start : Span) (type : Option String) :
    EndsPlain (newObject g start type) := by
  unfold newObject
  infer_instance

/-- A new object or array reaches from its keyword to where reading has come. -/
theorem newExpression_places (hg : g.Places ts stop)
    (hc : c.StandsAt ts stop i) (h : newExpression g c n = .ok e d m) :
    ∃ j, d.StandsAt ts stop j ∧ e.ClosedBetween ts i j := by
  have hbrace : EndsPlain (expect .openBrace) := endsPlain_expect (by decide)
  have helements : EndsPlain (elements g .closeBrace) := endsPlain_itemsUntil (by decide)
  have hstrict : Strict (newExpression g) := by
    unfold newExpression
    infer_instance
  have hends : EndsPlain (newExpression g) := by
    unfold newExpression
    infer_instance
  have hlays : Collects (Cursor.Lays ts stop) Expr.parts (newExpression g) :=
    newExpression_collects (assignment_lays hg) (initializerValue_lays hg)
  have hparts := hlays.collects h hc
  have hplain := passesPlain h
  have hstart := stretch_peek hc (Strict.passes h)
  have hkept : e.KeptFrom c.peek.span d := by
    obtain ⟨t, c', _, hword, h⟩ := bind_eq_ok h
    have ht : t = c.peek := by
      unfold expectWord at hword
      split at hword
      · cases hword
        rfl
      · cases hword
    subst ht
    have harray := fun start => array_kept (elements g .closeBrace) start none
    exact Finishes.fits h
  exact closed_of_kept hstart (Nat.le_refl _) hc hplain hkept hparts

/-! ## Primary expressions -/

/-- An expression of one token. -/
theorem closed_token (hc : c.StandsAt ts stop i) (hinside : c.peek.isEof = false)
    (hplain : c.peek.Plain) (hspan : e.span = c.peek.span) (hparts : e.parts = [])
    (hkeeps : e.keepsMark = false) :
    ∃ j, c.next.StandsAt ts stop j ∧ e.ClosedBetween ts i j := by
  obtain ⟨ht, hd⟩ := hc.next hinside
  refine ⟨i + 1, hd, i, rfl, .intro ?_ ?_, not_markAt ht hplain, hkeeps⟩
  · rw [hspan]
    exact JoinedFrom.token ht
  · rw [hparts]
    exact .nil (Nat.le_succ i)

/-- A literal is one token. -/
theorem literalOf_places {kind : LiteralKind} {value : String} (hc : c.StandsAt ts stop i)
    (hinside : c.peek.isEof = false) (hplain : c.peek.Plain)
    (h : literalOf kind value c n = .ok e d m) :
    ∃ j, d.StandsAt ts stop j ∧ e.ClosedBetween ts i j := by
  obtain ⟨_, _, _, hadvance, h⟩ := bind_eq_ok h
  cases hadvance
  cases h
  exact closed_token hc hinside hplain rfl rfl rfl

theorem wordExpression_places (hg : g.Places ts stop)
    (hc : c.StandsAt ts stop i) (hword : c.peek.isIdentifier = true)
    (h : wordExpression g c.peek c n = .ok e d m) :
    ∃ j, d.StandsAt ts stop j ∧ e.ClosedBetween ts i j := by
  have hinside := Token.not_eof_of_isIdentifier hword
  have hplain := Token.plain_of_isIdentifier hword
  unfold wordExpression at h
  split at h
  · exact literalOf_places hc hinside hplain h
  split at h
  · exact literalOf_places hc hinside hplain h
  split at h
  · exact newExpression_places hg hc h
  split at h
  · obtain ⟨_, _, _, hadvance, h⟩ := bind_eq_ok h
    cases hadvance
    cases h
    exact closed_token hc hinside hplain rfl rfl rfl
  split at h
  · -- a keyword, and what stands in parentheses behind it
    obtain ⟨ht, hnext⟩ := hc.next hinside
    obtain ⟨_, _, _, hadvance, h⟩ := bind_eq_ok h
    cases hadvance
    have hkept : e.KeptFrom c.peek.span d := by
      have hoperator : ∀ word, Finishes (Expr.KeptFrom c.peek.span) (do
          return .typeOperator word (c.peek.span.cover (← last))) := fun _ =>
        finishes_kept fun _ => ⟨rfl, rfl⟩
      exact Finishes.fits h
    have hplain : c.PassesPlain d :=
      (Cursor.passesPlain_next hinside hplain).trans (EndsPlain.plain h)
    have hparts : ∃ j, d.StandsAt ts stop j ∧ Expr.LaidWithin ts i j e.parts := by
      have hoperator : ∀ word s, Collects (Cursor.Lays ts stop) Expr.parts
          (Pure.pure (.typeOperator word s)) := fun _ _ => collects_pure rfl
      have hlaid : ∃ j, d.StandsAt ts stop j ∧ Expr.LaidWithin ts (i + 1) j e.parts :=
        Collects.collects (R := Cursor.Lays ts stop) h hnext
      obtain ⟨j, hd, hlaid⟩ := hlaid
      exact ⟨j, hd, hlaid.mono (Nat.le_succ i) (Nat.le_refl _)⟩
    exact closed_of_kept (JoinedFrom.token ht) (Nat.le_refl _) hc hplain hkept hparts
  split at h
  · cases h
  · obtain ⟨_, _, _, hadvance, h⟩ := bind_eq_ok h
    cases hadvance
    obtain ⟨a, hnext, hclosed⟩ : ∃ j, c.next.StandsAt ts stop j ∧
        (Expr.name c.peek.text c.peek.span).ClosedBetween ts i j :=
      closed_token hc hinside hplain rfl rfl rfl
    exact genericCall_places hg hclosed hnext h

/-- An expression without operators is laid over all tokens that it takes. -/
theorem primary_places (hg : g.Places ts stop)
    (hc : c.StandsAt ts stop i) (h : primary g c n = .ok e d m) :
    ∃ j, d.StandsAt ts stop j ∧ e.ClosedBetween ts i j := by
  obtain ⟨_, _, _, hpeek, h⟩ := bind_eq_ok h
  cases hpeek
  -- a token that is neither the end nor an exclamation mark
  have htoken : ∀ {kind : TokenKind}, c.peek.kind = kind → kind ≠ .eof → kind ≠ .symbol .bang →
      c.peek.isEof = false ∧ c.peek.Plain := by
    rintro _ rfl heof hbang
    exact ⟨decide_eq_false heof, decide_eq_false hbang⟩
  cases hkind : c.peek.kind with
  | eof =>
    rw [hkind] at h
    cases h
  | identifier =>
    rw [hkind] at h
    exact wordExpression_places hg hc (decide_eq_true hkind) h
  | symbol s =>
    rw [hkind] at h
    cases s
    case openParen =>
      obtain ⟨hinside, -⟩ := htoken hkind (by decide) (by decide)
      obtain ⟨hfirst, hnext⟩ := hc.next hinside
      obtain ⟨_, _, _, hadvance, h⟩ := bind_eq_ok h
      cases hadvance
      obtain ⟨inner, c', _, hinner, h⟩ := bind_eq_ok h
      obtain ⟨a, hc', hread⟩ := hg.assignment hnext hinner
      obtain ⟨close, _, _, hclose, h⟩ := bind_eq_ok h
      cases h
      obtain ⟨hlast, hd, hsymbol⟩ := hc'.expect hclose
      have hwithin : Expr.LaidWithin ts i (a + 1) [inner] :=
        (hread.within (Nat.le_succ i)).mono (Nat.le_refl _) (Nat.le_succ a)
      have hle := (hread.within (Nat.le_refl _)).le
      have hspan : JoinedFrom ts i a (c.peek.span.cover close.span) :=
        (JoinedFrom.token hfirst).upto (JoinedFrom.token hlast) (by omega) (by omega)
      exact ⟨a + 1, hd, a, rfl, .intro hspan hwithin,
        not_markAt hlast (Token.plain_of_isSymbol hsymbol (by decide)), rfl⟩
    case openBracket =>
      obtain ⟨hinside, -⟩ := htoken hkind (by decide) (by decide)
      obtain ⟨hfirst, hnext⟩ := hc.next hinside
      obtain ⟨_, _, _, hadvance, h⟩ := bind_eq_ok h
      cases hadvance
      have hkept := (array_kept (elements g .closeBracket) c.peek.span none).fits h
      have hparts : ∃ j, d.StandsAt ts stop j ∧ Expr.LaidWithin ts i j e.parts := by
        have helements := elements_collects (initializerValue_lays hg) .closeBracket
        obtain ⟨j, hd, hlaid⟩ := (array_collects helements c.peek.span none).collects h hnext
        exact ⟨j, hd, hlaid.mono (Nat.le_succ i) (Nat.le_refl _)⟩
      obtain ⟨items, _, _, hitems, h⟩ := bind_eq_ok h
      cases h
      have hplain : c.PassesPlain d :=
        (Cursor.reaches_next c).trans_plain (itemsUntil_plain (by decide) hitems)
      exact closed_of_kept (JoinedFrom.token hfirst) (Nat.le_refl _) hc hplain hkept hparts
    -- no other symbol begins an expression without operators
    all_goals cases h
  | _ =>
    rw [hkind] at h
    obtain ⟨hinside, hplain⟩ := htoken hkind (by decide) (by decide)
    exact literalOf_places hc hinside hplain h

/-! ## Trailers -/

theorem memberOf_places {target : Expr} {conditional : Bool}
    {k : Nat} (htarget : target.LaidOn ts i k) (hk : k < a) (hc : c.StandsAt ts stop a)
    (h : memberOf target conditional c n = .ok e d m) :
    ∃ j, d.StandsAt ts stop j ∧ e.ClosedBetween ts i j := by
  obtain ⟨_, _, _, hpeek, h⟩ := bind_eq_ok h
  cases hpeek
  split at h
  · rename_i hname
    obtain ⟨_, _, _, hadvance, h⟩ := bind_eq_ok h
    cases hadvance
    cases h
    obtain ⟨ht, hd⟩ := hc.next (Token.not_eof_of_isIdentifier hname)
    have hspan := htarget.span.upto (JoinedFrom.token ht) (htarget.le.trans hk.le) hk.le
    exact ⟨a + 1, hd, a, rfl, .intro hspan (htarget.within (Nat.le_refl _) (by omega)),
      not_markAt ht (Token.plain_of_isIdentifier hname), rfl⟩
  · cases h

/-- An expression behind which trailers may follow: it ends right before the cursor, or with
    one mark between that no other mark follows. -/
def Trailed (ts : List Token) (i a : Nat) (e : Expr) : Prop :=
  ∃ k, e.LaidOn ts i k ∧ e.keepsMark = false ∧
    ((k + 1 = a ∧ ¬MarkAt ts k) ∨ (k + 2 = a ∧ MarkAt ts (k + 1) ∧ ¬MarkAt ts a))

theorem trailed_of_closed (h : e.ClosedBetween ts i a) : Trailed ts i a e := by
  obtain ⟨k, hk, hlaid, hmark, hkeeps⟩ := h
  exact ⟨k, hlaid, hkeeps, .inl ⟨hk, hmark⟩⟩

/-- What follows an operand takes at most one mark that is not part of it. -/
theorem trailersWithin_places (hg : g.Places ts stop)
    {steps : Nat} {target : Expr} (htarget : Trailed ts i a target) (hc : c.StandsAt ts stop a)
    (h : trailersWithin g steps target c n = .ok e d m) :
    ∃ j, d.StandsAt ts stop j ∧ e.OperandBetween ts i j := by
  have hdone : ∀ {target a}, Trailed ts i a target → target.OperandBetween ts i a := by
    rintro target a ⟨k, hlaid, hkeeps, hends⟩
    refine ⟨k, hlaid, ?_, hkeeps⟩
    rcases hends with hends | ⟨ha, hmark, -⟩
    · exact .inl hends
    · exact .inr ⟨ha, hmark⟩
  induction steps generalizing target a c n with
  | zero =>
    cases h
    exact ⟨a, hc, hdone htarget⟩
  | succ steps ih =>
    have hlaid := htarget
    obtain ⟨k, hlaid, hkeeps, hends⟩ := hlaid
    have hk : k < a := by omega
    obtain ⟨_, _, _, hpeek, h⟩ := bind_eq_ok h
    cases hpeek
    split at h
    · -- an access to a member, and its arguments
      rename_i hdot
      obtain ⟨-, hnext⟩ := hc.next (Token.not_eof_of_isAnySymbol hdot)
      obtain ⟨_, _, _, hadvance, h⟩ := bind_eq_ok h
      cases hadvance
      obtain ⟨access, c₁, _, haccess, h⟩ := bind_eq_ok h
      obtain ⟨a₁, hc₁, hclosed⟩ := memberOf_places hlaid (by omega) hnext haccess
      obtain ⟨call, c₂, _, hcall, h⟩ := bind_eq_ok h
      obtain ⟨a₂, hc₂, hclosed⟩ := genericCall_places hg hclosed hc₁ hcall
      exact ih (trailed_of_closed hclosed) hc₂ h
    split at h
    · obtain ⟨call, c₁, _, hcall, h⟩ := bind_eq_ok h
      obtain ⟨a₁, hc₁, hclosed⟩ := callOf_places hg hlaid hk hc hcall
      exact ih (trailed_of_closed hclosed) hc₁ h
    split at h
    · rename_i hbracket
      obtain ⟨-, hnext⟩ := hc.next (Token.not_eof_of_isSymbol hbracket)
      obtain ⟨_, _, _, hadvance, h⟩ := bind_eq_ok h
      cases hadvance
      obtain ⟨index, c₁, _, hindex, h⟩ := bind_eq_ok h
      obtain ⟨a₁, hc₁, hclosed⟩ := indexOf_places hg hlaid (by omega) hnext hindex
      exact ih (trailed_of_closed hclosed) hc₁ h
    split at h
    · -- an operator behind its operand
      rename_i hoperator
      obtain ⟨ht, hnext⟩ := hc.next (Token.not_eof_of_isAnySymbol hoperator)
      obtain ⟨_, _, _, hadvance, h⟩ := bind_eq_ok h
      cases hadvance
      have hspan := hlaid.span.upto (JoinedFrom.token ht) (hlaid.le.trans hk.le) hk.le
      have hmark := not_markAt ht (Token.plain_of_isAnySymbol hoperator (by decide))
      have hunary : ∀ op,
          Trailed ts i (a + 1) (.unary op target (target.span.cover c.peek.span)) := fun op =>
        ⟨a, .intro hspan (hlaid.within (Nat.le_refl _) (by omega)), rfl, .inl ⟨rfl, hmark⟩⟩
      exact ih (hunary _) hnext h
    obtain ⟨_, _, _, hahead, h⟩ := bind_eq_ok h
    cases hahead
    split at h
    · -- a mark that asserts a value; it is not the second one
      rename_i hbang
      rw [Bool.and_eq_true] at hbang
      obtain ⟨ht, hnext⟩ := hc.next (Token.not_eof_of_isSymbol hbang.1)
      obtain ⟨_, _, _, hadvance, h⟩ := bind_eq_ok h
      cases hadvance
      have hmark : MarkAt ts a := ⟨_, ht, hbang.1⟩
      have hahead : c.next.peek.isAnySymbol
          [.dot, .questionDot, .openBracket, .closeParen, .semicolon, .comma] = true := by
        rw [Cursor.peek_next]
        exact hbang.2
      obtain ⟨hu, -⟩ := hnext.next (Token.not_eof_of_isAnySymbol hahead)
      have hplain := not_markAt hu (Token.plain_of_isAnySymbol hahead (by decide))
      rcases hends with ⟨rfl, -⟩ | ⟨-, -, hnone⟩
      · exact ih ⟨k, hlaid, hkeeps, .inr ⟨rfl, hmark, hplain⟩⟩ hnext h
      · exact absurd hmark hnone
    · cases h
      exact ⟨a, hc, hdone htarget⟩

end Forward

end Parse

end GatewayPolicy
