import GatewayPolicy.Proofs.Reading.Productions

/-! # Turns of loops

  A loop of reading is given as many steps as there are tokens left. The bound is there for
  the definition only: each turn after which a loop goes on has taken a token, so a loop
  comes to its end before its steps do, and it is what the same loop without a bound is.

  - `Parse.Guarded` are the recursions that go on only behind a token that was taken. Such
    a recursion has one solution, and a bound by the tokens left gives it.
  - `Parse.Turn` is what one turn of a loop comes to, and `Parse.Repeats` says that a loop
    makes some turns, each of them past a token.
  - The loops over single tokens, over lists and over what is skipped have their turns here.
-/

namespace GatewayPolicy

/-- Behind the last token there is none. -/
theorem Cursor.Reaches.rest_eq_nil {c d : Cursor} (h : c.Reaches d) (hc : c.rest = []) :
    d.rest = [] := by
  obtain ⟨taken, h⟩ := h
  have hrest := h.rest
  rw [hc] at hrest
  exact (List.append_eq_nil_iff.mp hrest.symm).2

namespace Parse

variable {ι σ α β : Type} {c d : Cursor} {n m : Nesting}

/-! ## Parses as programs -/

instance : LawfulMonad Parse := by
  refine LawfulMonad.mk' Parse ?_ (fun _ _ => rfl) ?_
  · intro α p
    funext c n
    show Parse.bind p _ c n = p c n
    unfold Parse.bind
    cases p c n <;> rfl
  · intro α β γ p f g
    funext c n
    show Parse.bind (Parse.bind p f) g c n = Parse.bind p _ c n
    unfold Parse.bind
    cases p c n <;> rfl

theorem ite_bind {b : Prop} [Decidable b] (p q : Parse α) (f : α → Parse β) :
    (if b then p else q) >>= f = if b then p >>= f else q >>= f := by
  split <;> rfl

theorem throw_bind (e : SyntaxError) (f : α → Parse β) : throw e >>= f = throw e := rfl

theorem expected_bind (what : Expectation) (f : α → Parse β) :
    expected what >>= f = expected what := rfl

/-- What is eaten is taken, and else nothing is. -/
theorem eat_eq_ok {s : Symbol} {eaten : Bool} (h : eat s c n = .ok eaten d m) :
    eaten = true ∧ c.Passes d ∨ eaten = false ∧ d = c := by
  unfold eat at h
  split at h
  · cases h
    exact .inl ⟨rfl, Cursor.passes_next (Token.not_eof_of_isSymbol ‹_›)⟩
  · cases h
    exact .inr ⟨rfl, rfl⟩

theorem eatWord_eq_ok {w : String} {eaten : Bool} (h : eatWord w c n = .ok eaten d m) :
    eaten = true ∧ c.Passes d ∨ eaten = false ∧ d = c := by
  unfold eatWord at h
  split at h
  · cases h
    exact .inl ⟨rfl, Cursor.passes_next (Token.not_eof_of_isWord ‹_›)⟩
  · cases h
    exact .inr ⟨rfl, rfl⟩

/-- What follows two parses that agree has to agree only where they come to. -/
theorem bind_congr_at {p q : Parse α} {f g : α → Parse β} (hp : p c n = q c n)
    (h : ∀ v d m, p c n = .ok v d m → f v d m = g v d m) : (p >>= f) c n = (q >>= g) c n := by
  show Parse.bind p f c n = Parse.bind q g c n
  unfold Parse.bind
  rw [← hp]
  cases hp : p c n with
  | ok v d m => exact h v d m hp
  | fail e m => rfl

/-! ## Recursions -/

/-- A recursion that goes on only behind a token that was taken. -/
def Guarded (F : (ι → Parse α) → ι → Parse α) : Prop :=
  ∀ (p q : ι → Parse α) (c : Cursor) (n : Nesting), (∀ i, Forward (p i)) →
    (∀ i d m, c.Passes d → p i d m = q i d m) → ∀ i, F p i c n = F q i c n

/-- A parse is what a recursion without any bound comes to. -/
structure Solves (F : (ι → Parse α) → ι → Parse α) (p : ι → Parse α) : Prop where
  unfolds : ∀ i, p i = F p i
  unique : ∀ q : ι → Parse α, (∀ i, q i = F q i) → q = p

section Recursions

variable {F : (ι → Parse α) → ι → Parse α} {p : ι → Parse α}

theorem Guarded.solves (hF : Guarded F) [hforward : ∀ i, Forward (p i)] (hp : ∀ i, p i = F p i) :
    Solves F p where
  unfolds := hp
  unique q hq := by
    -- by induction on the tokens left: behind the next one, both do the same
    have hagree : ∀ k, ∀ i c n, c.rest.length < k → p i c n = q i c n := by
      intro k
      induction k with
      | zero =>
        intro i c n hk
        omega
      | succ k ih =>
        intro i c n hk
        rw [hq, hp]
        apply hF _ _ _ _ hforward
        intro i d m hpass
        have hlt := hpass.length_lt
        exact ih i d m (by omega)
    funext i c n
    exact (hagree _ i c n (Nat.lt_succ_self _)).symm

/-- With as many steps as there are tokens left, a guarded recursion never lacks one. -/
theorem Guarded.solves_bounded (hF : Guarded F) (within : Nat → ι → Parse α)
    [hforward : ∀ k i, Forward (within k i)] (hstep : ∀ k i, within (k + 1) i = F (within k) i)
    (hend : ∀ i last stop n, within 0 i ⟨last, [], stop⟩ n = within 1 i ⟨last, [], stop⟩ n) :
    Solves F fun i => bounded (within · i) := by
  have henough : ∀ k, ∀ i c n, c.rest.length ≤ k →
      within k i c n = F (fun i => bounded (within · i)) i c n := by
    intro k
    induction k using Nat.strongRecOn with
    | ind k ih =>
      intro i c n hk
      cases k with
      | zero =>
        have hnil : c.rest = [] := List.eq_nil_of_length_eq_zero (by omega)
        obtain ⟨last, rest, stop⟩ := c
        cases hnil
        rw [hend, hstep]
        apply hF _ _ _ _ (hforward 0)
        intro i d m hpass
        have hlt := hpass.length_lt
        omega
      | succ k =>
        rw [hstep]
        apply hF _ _ _ _ (hforward k)
        intro i d m hpass
        have hlt := hpass.length_lt
        -- the bound is `k` on one side, and the number of tokens left on the other
        have hfewer := ih k (by omega) i d m (by omega)
        have hexact := ih d.rest.length (by omega) i d m (Nat.le_refl _)
        exact hfewer.trans hexact.symm
  have hbounded : ∀ i, Forward (bounded (within · i)) := by
    intro i
    infer_instance
  apply hF.solves
  intro i
  funext c n
  exact henough _ i c n (Nat.le_refl _)

end Recursions

/-- Two parses agree wherever one comes to from a cursor. -/
def SameFrom (c : Cursor) (p q : Parse α) : Prop := ∀ d m, c.Reaches d → p d m = q d m

section SameFrom

variable {p q : Parse α} {f g : α → Parse β} {b : Prop} [Decidable b]

theorem SameFrom.rfl : SameFrom c p p := fun _ _ _ => Eq.refl _

theorem SameFrom.here (h : SameFrom c p q) : p c n = q c n := h c n (.refl c)

theorem SameFrom.bind [Forward p] (hp : SameFrom c p q) (hf : ∀ v, SameFrom c (f v) (g v)) :
    SameFrom c (p >>= f) (q >>= g) := by
  intro d m hreach
  apply bind_congr_at (hp d m hreach)
  intro v e m' hv
  exact hf v e m' (hreach.trans (Forward.reaches hv))

theorem SameFrom.ite {p' q' : Parse α} (hp : SameFrom c p q) (hp' : SameFrom c p' q') :
    SameFrom c (if b then p else p') (if b then q else q') := by
  split
  · exact hp
  · exact hp'

theorem SameFrom.bounded {p q : Nat → Parse α} (h : ∀ k, SameFrom c (p k) (q k)) :
    SameFrom c (bounded p) (bounded q) :=
  fun d m hreach => h _ d m hreach

/-- Parses that agree behind a token agree from any cursor that stands there. -/
theorem sameFrom_of_passes (h : ∀ d m, c.Passes d → p d m = q d m) (hpass : c.Passes d) :
    SameFrom d p q :=
  fun e m hreach => h e m (hpass.trans_reaches hreach)

/-- Items that agree make lists that agree. -/
theorem SameFrom.commaList [Forward p] (h : SameFrom c p q) :
    SameFrom c (commaList p) (commaList q) := by
  apply SameFrom.bounded
  intro k
  induction k with
  | zero => exact h.bind fun _ => .rfl
  | succ k ih =>
    refine h.bind fun first => SameFrom.rfl.bind fun comma => .ite ?_ .rfl
    exact ih.bind fun _ => .rfl

theorem SameFrom.itemsUntil [Forward p] (h : SameFrom c p q) (close : Symbol) :
    SameFrom c (itemsUntil close p) (itemsUntil close q) := by
  refine SameFrom.bind (.bounded ?_) fun _ => .rfl
  intro k
  induction k with
  | zero => exact SameFrom.rfl.bind fun _ => .ite .rfl (h.bind fun _ => .rfl)
  | succ k ih =>
    refine SameFrom.rfl.bind fun _ => .ite .rfl (h.bind fun first => ?_)
    refine SameFrom.rfl.bind fun comma => .ite ?_ .rfl
    exact ih.bind fun _ => .rfl

end SameFrom

/-! ## Loops -/

/-- What a turn of a loop comes to: the result of the loop, or what it goes on with and
    what is made of the result then. -/
inductive Turn (σ α : Type) where
  | stop (result : α)
  | again (state : σ) (wrap : α → α)

/-- Goes on after a turn. -/
def Turn.follow (loop : σ → Parse α) : Turn σ α → Parse α
  | .stop result => Pure.pure result
  | .again state wrap => do return wrap (← loop state)

/-- A loop makes its turns one after the other, with no bound on their number, and each
    turn after which it goes on has taken a token. -/
structure Repeats (turn : σ → Parse (Turn σ α)) (loop : σ → Parse α) : Prop
    extends Solves (fun again state => turn state >>= Turn.follow again) loop where
  passes : ∀ {s s' : σ} {wrap : α → α} {c d : Cursor} {n m : Nesting},
    turn s c n = .ok (.again s' wrap) d m → c.Passes d

/-- From a cursor, a turn after which a loop goes on has taken a token. -/
def Past (turn : Parse (Turn σ α)) (c : Cursor) : Prop :=
  ∀ (state : σ) (wrap : α → α) (d : Cursor) (n m : Nesting),
    turn c n = .ok (.again state wrap) d m → c.Passes d

section Past

variable {p q : Parse (Turn σ α)} {f : β → Parse (Turn σ α)} {b : Prop} [Decidable b]

theorem past_stop (result : α) : Past (Pure.pure (.stop result) : Parse (Turn σ α)) c := by
  intro state wrap d n m h
  cases h

theorem past_strict [Strict p] : Past p c := fun _ _ _ _ _ h => Strict.passes h

theorem past_throw (e : SyntaxError) : Past (throw e : Parse (Turn σ α)) c := by
  intro state wrap d n m h
  cases h

theorem past_ite (hp : b → Past p c) (hq : ¬b → Past q c) : Past (if b then p else q) c := by
  split
  · exact hp ‹_›
  · exact hq ‹_›

/-- Behind a parse that takes tokens, or none. -/
theorem past_bind {x : Parse β} [Forward x] (hf : ∀ v d, c.Reaches d → Past (f v) d) :
    Past (x >>= f) c := by
  intro state wrap d n m h
  obtain ⟨v, c', n', hx, h⟩ := bind_eq_ok h
  have hreach := Forward.reaches hx
  exact hreach.trans_passes (hf v c' hreach _ _ _ _ _ h)

/-- Behind a parse that takes a token. -/
theorem past_of_passes {x : Parse β} [∀ v, Forward (f v)]
    (hx : ∀ {v d n m}, x c n = .ok v d m → c.Passes d) : Past (x >>= f) c := by
  intro state wrap d n m h
  obtain ⟨v, c', n', hv, h⟩ := bind_eq_ok h
  exact (hx hv).trans_reaches (Forward.reaches h)

/-- Behind a parse that only looks at what is ahead. -/
theorem past_look {look : Cursor → β} (hf : Past (f (look c)) c) :
    Past ((fun c n => .ok (look c) c n : Parse β) >>= f) c := hf

theorem past_advance {f : Token → Parse (Turn σ α)} [∀ v, Forward (f v)]
    (hc : c.peek.isEof = false) : Past (advance >>= f) c := by
  apply past_of_passes
  intro t d n m h
  cases h
  exact Cursor.passes_next hc

theorem past_advance_of_rest {f : Token → Parse (Turn σ α)} [∀ v, Forward (f v)] {t : Token}
    {ts : List Token} (hc : c.rest = t :: ts) : Past (advance >>= f) c := by
  apply past_of_passes
  intro v d n m h
  obtain ⟨last, rest, stop⟩ := c
  cases hc
  cases h
  exact ⟨[t], List.cons_ne_nil _ _, rfl, rfl, rfl⟩

theorem past_eat {s : Symbol} {f : Bool → Parse (Turn σ α)} [Forward (f true)]
    (hf : Past (f false) c) : Past (eat s >>= f) c := by
  intro state wrap d n m h
  obtain ⟨eaten, c', n', heat, hrest⟩ := bind_eq_ok h
  rcases eat_eq_ok heat with ⟨rfl, hpass⟩ | ⟨rfl, rfl⟩
  · exact hpass.trans_reaches (Forward.reaches hrest)
  · exact hf _ _ _ _ _ hrest

theorem past_eatWord {w : String} {f : Bool → Parse (Turn σ α)} [Forward (f true)]
    (hf : Past (f false) c) : Past (eatWord w >>= f) c := by
  intro state wrap d n m h
  obtain ⟨eaten, c', n', heat, hrest⟩ := bind_eq_ok h
  rcases eatWord_eq_ok heat with ⟨rfl, hpass⟩ | ⟨rfl, rfl⟩
  · exact hpass.trans_reaches (Forward.reaches hrest)
  · exact hf _ _ _ _ _ hrest

end Past

section Loops

variable {turn : σ → Parse (Turn σ α)}

theorem guarded_of_past (hpast : ∀ s c, Past (turn s) c) :
    Guarded fun (again : σ → Parse α) s => turn s >>= Turn.follow again := by
  intro p q c n _ hagree s
  apply bind_congr_at rfl
  intro t d m hturn
  cases t with
  | stop result => rfl
  | again s' wrap =>
    show Parse.bind (p s') _ d m = Parse.bind (q s') _ d m
    unfold Parse.bind
    rw [hagree s' d m (hpast s c _ _ _ _ _ hturn)]

/-- A loop that is defined with steps. -/
theorem repeats_of_steps (within : Nat → σ → Parse α) [∀ k s, Forward (within k s)]
    (hpast : ∀ s c, Past (turn s) c)
    (hstep : ∀ k s, within (k + 1) s = turn s >>= Turn.follow (within k))
    (hend : ∀ s last stop n, within 0 s ⟨last, [], stop⟩ n = within 1 s ⟨last, [], stop⟩ n) :
    Repeats turn fun s => bounded (within · s) where
  toSolves := (guarded_of_past hpast).solves_bounded within hstep hend
  passes h := hpast _ _ _ _ _ _ _ h

/-- A loop that is defined by recursion on the tokens. -/
theorem repeats_of_eq {loop : σ → Parse α} [∀ s, Forward (loop s)]
    (hpast : ∀ s c, Past (turn s) c)
    (hloop : ∀ s c n, loop s c n = (turn s >>= Turn.follow loop) c n) : Repeats turn loop where
  toSolves := by
    apply (guarded_of_past hpast).solves
    intro s
    funext c n
    exact hloop s c n
  passes h := hpast _ _ _ _ _ _ _ h

end Loops

/-! ## Single tokens -/

/-- Nothing is eaten at the end of the file. -/
theorem eat_bind_end {s : Symbol} {f : Bool → Parse α} (hc : c.rest = []) :
    (eat s >>= f) c n = f false c n := by
  obtain ⟨last, rest, stop⟩ := c
  cases hc
  rfl

/-- A turn of taking tokens while they satisfy `p`. -/
def takeWhileTurn (p : Token → Bool) (_ : Unit) : Parse (Turn Unit (List Token)) := do
  match (← cursor).rest with
  | [] => return .stop []
  | t :: _ =>
    if p t then
      let _ ← advance
      return .again () (t :: ·)
    else return .stop []

theorem takeWhile_repeats (p : Token → Bool) :
    Repeats (takeWhileTurn p) fun _ => takeWhile p := by
  apply repeats_of_eq
  · intro s c
    apply past_look
    cases hrest : c.rest with
    | nil => exact past_stop []
    | cons t ts =>
      apply past_ite
      · intro _
        exact past_advance_of_rest hrest
      · intro _
        exact past_stop []
  · intro s c n
    obtain ⟨last, rest, stop⟩ := c
    cases rest with
    | nil => rfl
    | cons t ts =>
      show takeWhile p ⟨last, t :: ts, stop⟩ n =
        ((if p t then advance >>= fun _ => Pure.pure (Turn.again () (t :: ·))
          else Pure.pure (.stop [])) >>= Turn.follow fun _ => takeWhile p) ⟨last, t :: ts, stop⟩ n
      by_cases ht : p t = true
      · rw [if_pos ht]
        show Step.ok _ _ n = Step.ok _ _ n
        simp only [Cursor.skipWhile, Cursor.next, List.takeWhile_cons_of_pos ht,
          List.dropWhile_cons_of_pos ht, List.getLast?_cons, Option.map_some, Option.getD_some]
        cases (ts.takeWhile p).getLast? <;> rfl
      · rw [if_neg ht]
        show Step.ok _ _ n = Step.ok _ _ n
        simp [Cursor.skipWhile, ht]

/-! ## Lists -/

section Lists

variable {item : Parse α} [Forward item]

/-- A turn of reading items with commas between them. -/
def commaListTurn (item : Parse α) (_ : Unit) : Parse (Turn Unit (List α)) := do
  let first ← item
  if ← eat .comma then return .again () (first :: ·) else return .stop [first]

theorem commaList_repeats : Repeats (commaListTurn item) fun _ => commaList item := by
  apply repeats_of_steps fun k _ => commaListWithin item k
  · intro s c
    apply past_bind
    intro first d _
    exact past_eat (past_stop [first])
  · intro k s
    simp only [commaListWithin, commaListTurn, bind_assoc, ite_bind, pure_bind, Turn.follow]
  · intro s last stop n
    apply bind_congr_at rfl
    intro first d m hitem
    rw [eat_bind_end ((Forward.reaches hitem).rest_eq_nil rfl)]
    rfl

/-- A turn of reading items up to a closing symbol. -/
def itemsTurn (close : Symbol) (item : Parse α) (_ : Unit) : Parse (Turn Unit (List α)) := do
  if ← at? close then return .stop []
  let first ← item
  if ← eat .comma then return .again () (first :: ·) else return .stop [first]

theorem items_repeats (close : Symbol) :
    Repeats (itemsTurn close item) fun _ => bounded (itemsWithin close item) := by
  apply repeats_of_steps fun k _ => itemsWithin close item k
  · intro s c
    apply past_look
    apply past_ite
    · intro _
      exact past_stop []
    · intro _
      apply past_bind
      intro first d _
      exact past_eat (past_stop [first])
  · intro k s
    simp only [itemsWithin, itemsTurn, bind_assoc, ite_bind, pure_bind, Turn.follow]
  · intro s last stop n
    show (item >>= _) ⟨last, [], stop⟩ n = (item >>= _) ⟨last, [], stop⟩ n
    apply bind_congr_at rfl
    intro first d m hitem
    rw [eat_bind_end ((Forward.reaches hitem).rest_eq_nil rfl)]
    rfl

end Lists

/-! ## Skipping -/

/-- The symbols that still have to close a group behind one more token. -/
def closesBehind (close : Symbol) (outer : List Symbol) (t : Token) :
    Except SyntaxError (List Symbol) :=
  match t.kind with
  | .symbol s =>
    match s.closing? with
    | some inner => .ok (inner :: close :: outer)
    | none =>
      if s = close then .ok outer
      else if s.isClosing then .error { fault := .mismatched t.text close, span := t.span }
      else .ok (close :: outer)
  | _ => .ok (close :: outer)

theorem closeGroup_cons (opening : Token) (close : Symbol) (outer : List Symbol) (last : Span)
    (t : Token) (ts : List Token) :
    closeGroup opening (close :: outer) last (t :: ts) =
      (closesBehind close outer t).bind fun closes => closeGroup opening closes t.span ts := by
  rw [closeGroup, closesBehind]
  cases t.kind with
  | symbol s =>
    dsimp only
    cases s.closing? with
    | some inner => rfl
    | none =>
      dsimp only
      split
      · rfl
      · split <;> rfl
  | _ => rfl

/-- The value of a check that may fail. -/
def checked (x : Except SyntaxError α) : Parse α := fun c n =>
  match x with
  | .ok v => .ok v c n
  | .error e => .fail e n

instance (x : Except SyntaxError α) : Forward (checked x) where
  reaches h := by
    cases x with
    | ok v =>
      cases h
      exact .refl _
    | error e => cases h

/-- A turn of skipping a group, which some symbols still have to close. -/
def groupTurn (opening : Token) : List Symbol → Parse (Turn (List Symbol) Unit)
  | [] => return .stop ()
  | close :: outer => do
    match (← cursor).rest with
    | [] => throw { fault := .unclosed opening.text close, span := opening.span }
    | t :: _ =>
      let _ ← advance
      return .again (← checked (closesBehind close outer t)) id

/-- The rest of a group that some symbols still have to close. -/
def groupRest (opening : Token) (closes : List Symbol) : Parse Unit := fun c n =>
  match closeGroup opening closes c.last c.rest with
  | .ok (last, rest) => .ok () { c with last, rest } n
  | .error e => .fail e n

instance (opening : Token) (closes : List Symbol) : Forward (groupRest opening closes) where
  reaches {c d n m v} h := by
    unfold groupRest at h
    split at h
    · rename_i hgroup
      cases h
      exact closeGroup_reaches c.stop hgroup
    · cases h

theorem groupRest_repeats (opening : Token) :
    Repeats (groupTurn opening) (groupRest opening) := by
  apply repeats_of_eq
  · intro closes c
    cases closes with
    | nil => exact past_stop ()
    | cons close outer =>
      apply past_look
      cases hrest : c.rest with
      | nil => exact past_throw _
      | cons t ts => exact past_advance_of_rest hrest
  · intro closes c n
    obtain ⟨last, rest, stop⟩ := c
    cases closes with
    | nil => cases rest <;> rfl
    | cons close outer =>
      cases rest with
      | nil => rfl
      | cons t ts =>
        show (match closeGroup opening (close :: outer) last (t :: ts) with
          | .ok (last, rest) => Step.ok () ⟨last, rest, stop⟩ n
          | .error e => .fail e n) = _
        rw [closeGroup_cons]
        show _ = ((checked (closesBehind close outer t) >>= fun closes =>
          Pure.pure (Turn.again closes id)) >>= Turn.follow (groupRest opening))
            ⟨t.span, ts, stop⟩ n
        cases closesBehind close outer t with
        | error e => rfl
        | ok behind =>
          show _ = (groupRest opening behind >>= fun v => Pure.pure (id v)) ⟨t.span, ts, stop⟩ n
          simp only [id, bind_pure]
          rfl

/-- A group is skipped from behind its opening bracket. -/
theorem skipGroup_eq : skipGroup = (do
    let opening ← peek
    match opening.closing? with
    | none => throw { fault := .noBracket opening.text, span := opening.span }
    | some close =>
      let _ ← advance
      groupRest opening [close]
      return opening.span.cover (← last)) := by
  funext c n
  obtain ⟨final, rest, stop⟩ := c
  cases rest with
  | nil => rfl
  | cons t ts =>
    show (match t.closing? with
      | none => _
      | some close => _ : Step Span) = (match t.closing? with
      | none => throw { fault := .noBracket t.text, span := t.span }
      | some close => do
        let _ ← advance
        groupRest t [close]
        return t.span.cover (← last) : Parse Span) ⟨final, t :: ts, stop⟩ n
    cases t.closing? with
    | none => rfl
    | some close =>
      show _ = Parse.bind (groupRest t [close]) _ ⟨t.span, ts, stop⟩ n
      unfold Parse.bind groupRest
      dsimp only [Cursor.peek, Cursor.next, List.head?_cons, Option.getD_some]
      cases closeGroup t [close] t.span ts with
      | error e => rfl
      | ok found => rfl

/-- A turn of skipping up to a token. -/
def skipToTurn (group stop : Token → Bool) (_ : Unit) : Parse (Turn Unit Unit) := do
  let t ← peek
  if t.isEof || stop t then return .stop ()
  if group t then
    let _ ← skipGroup
  else
    let _ ← advance
  return .again () id

theorem skipTo_repeats (group stop : Token → Bool) :
    Repeats (skipToTurn group stop) fun _ => skipTo group stop := by
  apply repeats_of_steps fun k _ => skipToWithin group stop k
  · intro s c
    apply past_look
    apply past_ite
    · intro _
      exact past_stop ()
    · intro hgo
      simp only [Bool.or_eq_true, not_or, Bool.not_eq_true] at hgo
      apply past_ite
      · intro _
        exact past_strict
      · intro _
        exact past_advance hgo.1
  · intro k s
    simp only [skipToWithin, skipToTurn, bind_assoc, ite_bind, pure_bind, Turn.follow, id,
      bind_pure]
  · intro s last stop n
    rfl

/-- A turn of skipping type parameters that some angle brackets still have to close. -/
def anglesTurn (opening : Token) : Nat → Parse (Turn Nat Unit)
  | 0 => return .stop ()
  | depth + 1 => do
    match (← cursor).rest with
    | [] => throw { fault := .unclosedAngle, span := opening.span }
    | t :: _ =>
      let _ ← advance
      return .again (if t.isSymbol .less then depth + 2
        else if t.isSymbol .greater then depth else depth + 1) id

/-- The rest of type parameters that some angle brackets still have to close. -/
def anglesRest (opening : Token) (depth : Nat) : Parse Unit := fun c n =>
  match closeAngles depth c.last c.rest with
  | some (last, rest) => .ok () { c with last, rest } n
  | none => .fail { fault := .unclosedAngle, span := opening.span } n

instance (opening : Token) (depth : Nat) : Forward (anglesRest opening depth) where
  reaches {c d n m v} h := by
    unfold anglesRest at h
    split at h
    · rename_i hangles
      cases h
      exact closeAngles_reaches c.stop hangles
    · cases h

theorem anglesRest_repeats (opening : Token) :
    Repeats (anglesTurn opening) (anglesRest opening) := by
  apply repeats_of_eq
  · intro depth c
    cases depth with
    | zero => exact past_stop ()
    | succ depth =>
      apply past_look
      cases hrest : c.rest with
      | nil => exact past_throw _
      | cons t ts => exact past_advance_of_rest hrest
  · intro depth c n
    obtain ⟨last, rest, stop⟩ := c
    cases depth with
    | zero => cases rest <;> rfl
    | succ depth =>
      cases rest with
      | nil => rfl
      | cons t ts =>
        have hstep : closeAngles (depth + 1) last (t :: ts) =
            closeAngles (if t.isSymbol .less then depth + 2
              else if t.isSymbol .greater then depth else depth + 1) t.span ts := by
          rw [closeAngles]
          split
          · rfl
          · split <;> rfl
        show (match closeAngles (depth + 1) last (t :: ts) with
          | some (last, rest) => Step.ok () ⟨last, rest, stop⟩ n
          | none => .fail { fault := .unclosedAngle, span := opening.span } n) =
            (anglesRest opening _ >>= fun v => Pure.pure (id v)) ⟨t.span, ts, stop⟩ n
        rw [hstep]
        simp only [id, bind_pure]
        rfl

/-- Type parameters are skipped from behind their opening bracket. -/
theorem skipAngles_eq : skipAngles = (do
    let opening ← expect .less
    anglesRest opening 1) := by
  funext c n
  apply bind_congr_at rfl
  intro opening d m h
  have hlast := expect_last h
  show (match closeAngles 1 opening.span d.rest with
    | some (last, rest) => rewind { d with last, rest }
    | none => throw { fault := .unclosedAngle, span := opening.span }) d m =
      anglesRest opening 1 d m
  unfold anglesRest
  rw [hlast]
  cases closeAngles 1 opening.span d.rest with
  | none => rfl
  | some found => rfl

end Parse

end GatewayPolicy
