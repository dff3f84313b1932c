import GatewayPolicy.Proofs.Reading.Turns

/-! # Loops of types and expressions

  The loops and recursions below statements, each with its turn.

  - `Parse.typeName_solves` and `Parse.initializerValue_solves` are for types and initializers,
    which may be nested in each other to any depth.
  - `Parse.trailers_repeats` and `Parse.operands_repeats` are for what follows an expression.
  - `Parse.arrowFollows?` looks ahead with a counter that must not fall below zero, and
    `Parse.lambdaParametersBy_eq` says that it never does.
-/

namespace GatewayPolicy

namespace Parse

variable {c : Cursor} {n : Nesting}

/-! ## Types -/

section Types

variable {type : Parse String} [Forward type]

/-- A turn of reading what follows the first name of a type. -/
def typePathTurn (type : Parse String) (_ : Unit) : Parse (Turn Unit Unit) := do
  if ← at? .less then
    let _ ← typeArgumentsOf type
  if (← atAny? [.dot, .doubleColon]) && (← peekAt 1).isIdentifier then
    let _ ← advance
    let _ ← advance
    return .again () id
  else return .stop ()

theorem typePath_repeats :
    Repeats (typePathTurn type) fun _ => bounded (typePathWithin type) := by
  apply repeats_of_steps fun k _ => typePathWithin type k
  · intro s c
    unfold typePathTurn
    extract_lets rest
    have hrest : ∀ u c, Past (rest u) c := by
      intro u c
      apply past_look
      apply past_look
      apply past_ite
      · intro hdot
        exact past_advance (Token.not_eof_of_isAnySymbol (Bool.and_eq_true_iff.mp hdot).1)
      · intro _
        exact past_stop ()
    apply past_look
    apply past_ite
    · intro _
      apply past_bind
      intro _ d _
      exact hrest () d
    · intro _
      exact hrest () c
  · intro k s
    simp only [typePathWithin, typePathTurn, bind_assoc, ite_bind, pure_bind, Turn.follow, id,
      bind_pure]
  · intro s last stop n
    rfl

/-- A turn of reading the question marks and brackets behind a type. -/
def typeEndingTurn (_ : Unit) : Parse (Turn Unit Unit) := do
  let next ← peekAt 1
  if (← at? .question) && (next.isIdentifier ||
      next.isAnySymbol [.greater, .comma, .closeParen, .openBracket, .closeBracket]) then
    let _ ← advance
    return .again () id
  else if (← at? .openBracket) && next.isAnySymbol [.closeBracket, .comma] then
    let _ ← skipGroup
    return .again () id
  else return .stop ()

theorem typeEnding_repeats : Repeats typeEndingTurn fun _ => bounded typeEndingWithin := by
  apply repeats_of_steps fun k _ => typeEndingWithin k
  · intro s c
    apply past_look
    apply past_look
    apply past_ite
    · intro hmark
      exact past_advance (Token.not_eof_of_isSymbol (Bool.and_eq_true_iff.mp hmark).1)
    · intro _
      apply past_look
      apply past_ite
      · intro _
        exact past_strict
      · intro _
        exact past_stop ()
  · intro k s
    simp only [typeEndingWithin, typeEndingTurn, bind_assoc, ite_bind, pure_bind, Turn.follow, id,
      bind_pure]
  · intro s last stop n
    rfl

theorem typeArgumentsOf_same {type' : Parse String} (h : SameFrom c type type') :
    SameFrom c (typeArgumentsOf type) (typeArgumentsOf type') := by
  refine SameFrom.rfl.bind fun _ => SameFrom.bind ?_ fun _ => .rfl
  exact SameFrom.rfl.bind fun _ => .ite .rfl h.commaList

theorem typePathWithin_same {type' : Parse String} (h : SameFrom c type type') (k : Nat) :
    SameFrom c (typePathWithin type k) (typePathWithin type' k) := by
  induction k with
  | zero => exact .rfl
  | succ k ih =>
    have hrest : SameFrom c
        (do if (← atAny? [.dot, .doubleColon]) && (← peekAt 1).isIdentifier then
              let _ ← advance
              let _ ← advance
              typePathWithin type k)
        (do if (← atAny? [.dot, .doubleColon]) && (← peekAt 1).isIdentifier then
              let _ ← advance
              let _ ← advance
              typePathWithin type' k) := by
      refine SameFrom.rfl.bind fun _ => SameFrom.rfl.bind fun _ => .ite ?_ .rfl
      exact SameFrom.rfl.bind fun _ => SameFrom.rfl.bind fun _ => ih
    refine SameFrom.rfl.bind fun _ => .ite ?_ hrest
    exact (typeArgumentsOf_same h).bind fun _ => hrest

theorem typeOf_guarded : Guarded fun (type : Unit → Parse String) _ => typeOf (type ()) := by
  intro p q c n hforward hagree _
  have hinner := hforward ()
  unfold typeOf
  apply bind_congr_at rfl
  intro start d m hstart
  cases hstart
  split
  · rfl
  split
  · rename_i hname
    have heof : c.peek.isEof = false := by
      rw [Token.namesType, Bool.and_eq_true] at hname
      exact Token.not_eof_of_isIdentifier hname.1
    apply bind_congr_at rfl
    intro t d m hadvance
    cases hadvance
    -- type arguments stand behind the first name
    have hsame : SameFrom c.next (p ()) (q ()) :=
      sameFrom_of_passes (hagree ()) (Cursor.passes_next heof)
    refine (SameFrom.bind (.bounded fun k => ?_) fun _ => .rfl).here
    exact typePathWithin_same hsame k
  · rfl

/-- A type is read by one recursion, however deep its type arguments are nested. -/
theorem typeName_solves :
    Solves (fun (type : Unit → Parse String) _ => typeOf (type ())) fun _ => typeName := by
  have hforward : ∀ k, Forward (typeWithin k) := forward_typeWithin
  apply typeOf_guarded.solves_bounded fun k _ => typeWithin k
  · intro k _
    rfl
  · intro _ last stop n
    rfl

/-- The text of a type is made of the tokens between the cursors around it. -/
theorem typeName_text {c d : Cursor} {n m : Nesting} {text : String}
    (h : typeName c n = .ok text d m) : ∃ taken, c.Takes taken d ∧ text = typeText taken := by
  have hreach : c.Reaches d := Forward.reaches h
  have hunfold : typeName = typeOf typeName := typeName_solves.unfolds ()
  rw [hunfold] at h
  obtain ⟨start, _, _, hstart, h⟩ := bind_eq_ok h
  cases hstart
  have hlast : Finishes (fun text d => text = typeText (c.tokensTo d))
      (do return typeText (c.tokensTo (← cursor))) := by
    constructor
    intro c' d' n' m' v hv
    cases hv
    rfl
  have htext : text = typeText (c.tokensTo d) := by
    split at h
    · exact Finishes.fits (Q := fun text d => text = typeText (c.tokensTo d)) h
    split at h
    · exact Finishes.fits (Q := fun text d => text = typeText (c.tokensTo d)) h
    · exact Finishes.fits (Q := fun text d => text = typeText (c.tokensTo d)) h
  obtain ⟨taken, htaken⟩ := hreach
  refine ⟨taken, htaken, ?_⟩
  rw [htext, Cursor.tokensTo, htaken.rest, List.length_append, Nat.add_sub_cancel,
    List.take_left]

end Types

/-! ## Expressions -/

section Expressions

variable {g : Grammar} [g.Forward]

instance : Strict (argumentList g) := by
  unfold argumentList
  infer_instance

instance (target : Expr) (types : List String) : Strict (callOf g target types) := by
  unfold callOf
  infer_instance

/-- A turn of reading what follows an expression. -/
def trailersTurn (g : Grammar) (e : Expr) : Parse (Turn Expr Expr) := do
  let t ← peek
  if t.isAnySymbol [.dot, .questionDot] then
    let _ ← advance
    let access ← memberOf e (t.isSymbol .questionDot)
    return .again (← genericCall g access) id
  else if t.isSymbol .openParen then
    return .again (← callOf g e []) id
  else if t.isSymbol .openBracket then
    let _ ← advance
    return .again (← indexOf g e) id
  else if t.isAnySymbol [.increment, .decrement] then
    let _ ← advance
    let op : UnaryOp := if t.isSymbol .increment then .postIncrement else .postDecrement
    return .again (.unary op e (e.span.cover t.span)) id
  else if t.isSymbol .bang && (← peekAt 1).isAnySymbol
      [.dot, .questionDot, .openBracket, .closeParen, .semicolon, .comma] then
    let _ ← advance
    return .again e id
  else return .stop e

theorem trailers_repeats : Repeats (trailersTurn g) (trailers g) := by
  apply repeats_of_steps (trailersWithin g)
  · intro e c
    apply past_look
    apply past_ite
    · intro hdot
      exact past_advance (Token.not_eof_of_isAnySymbol hdot)
    intro _
    apply past_ite
    · intro _
      exact past_strict
    intro _
    apply past_ite
    · intro hbracket
      exact past_advance (Token.not_eof_of_isSymbol hbracket)
    intro _
    apply past_ite
    · intro hstep
      exact past_advance (Token.not_eof_of_isAnySymbol hstep)
    intro _
    apply past_look
    apply past_ite
    · intro hbang
      exact past_advance (Token.not_eof_of_isSymbol (Bool.and_eq_true_iff.mp hbang).1)
    · intro _
      exact past_stop e
  · intro k e
    simp only [trailersWithin, trailersTurn, bind_assoc, ite_bind, pure_bind, Turn.follow, id,
      bind_pure]
  · intro e last stop n
    rfl

/-- The operators that follow an operand, read by a recursion on what is behind the first
    operator. -/
def operandsFrom (g : Grammar) (again : Nat × Expr → Parse Expr) : Nat × Expr → Parse Expr
  | (least, left) => do
    match binaryOperator? (← peek) (← peekAt 1) with
    | none => return left
    | some (op, width) =>
      if op.precedence < least then return left
      let _ ← advance
      if width = 2 then
        let _ ← advance
      let right ← (do
        if op.testsType then typePattern g else again (op.rightMin, ← g.unary))
      again (least, .binary op left right (left.span.cover right.span))

/-- A turn of reading an operator and its right operand. -/
def operandsTurn (g : Grammar) : Nat × Expr → Parse (Turn (Nat × Expr) Expr)
  | (least, left) => do
    match binaryOperator? (← peek) (← peekAt 1) with
    | none => return .stop left
    | some (op, width) =>
      if op.precedence < least then return .stop left
      let _ ← advance
      if width = 2 then
        let _ ← advance
      let right ← (do if op.testsType then typePattern g else operands g op.rightMin)
      return .again (least, .binary op left right (left.span.cover right.span)) id

/-- The end of the file is no operator. -/
theorem not_eof_of_binaryOperator {t next : Token} {op : BinaryOp × Nat}
    (h : binaryOperator? t next = some op) : t.isEof = false := by
  by_contra heof
  have hkind : t.kind = .eof := by simpa [Token.isEof] using heof
  simp [binaryOperator?, Token.isWord, hkind] at h

theorem operandsFrom_guarded : Guarded (operandsFrom g) := by
  intro p q c n hforward hagree s
  obtain ⟨least, left⟩ := s
  show (match binaryOperator? c.peek (c.peekAt 1) with
    | none => Pure.pure left
    | some (op, width) => _ : Parse Expr) c n = (match binaryOperator? c.peek (c.peekAt 1) with
    | none => Pure.pure left
    | some (op, width) => _ : Parse Expr) c n
  cases hop : binaryOperator? c.peek (c.peekAt 1) with
  | none => rfl
  | some found =>
    obtain ⟨op, width⟩ := found
    dsimp only
    split
    · rfl
    apply bind_congr_at rfl
    intro t d m hadvance
    cases hadvance
    have hsame : ∀ s, SameFrom c.next (p s) (q s) := fun s =>
      sameFrom_of_passes (hagree s) (Cursor.passes_next (not_eof_of_binaryOperator hop))
    have hrest : SameFrom c.next
        (do
          let right ← (do if op.testsType then typePattern g else p (op.rightMin, ← g.unary))
          p (least, .binary op left right (left.span.cover right.span)))
        (do
          let right ← (do if op.testsType then typePattern g else q (op.rightMin, ← g.unary))
          q (least, .binary op left right (left.span.cover right.span))) := by
      refine SameFrom.bind (.ite .rfl ?_) fun right => hsame _
      exact SameFrom.rfl.bind fun operand => hsame _
    exact (SameFrom.ite (SameFrom.rfl.bind fun _ => hrest) hrest).here

theorem operands_repeats :
    Repeats (operandsTurn g) fun s => bounded (operandsWithin g · s.1 s.2) := by
  have hsolves : Solves (operandsFrom g) fun s => bounded (operandsWithin g · s.1 s.2) := by
    apply operandsFrom_guarded.solves_bounded fun k s => operandsWithin g k s.1 s.2
    · intro k s
      rfl
    · intro s last stop n
      rfl
  apply repeats_of_eq
  · intro s c
    obtain ⟨least, left⟩ := s
    apply past_look
    apply past_look
    cases hop : binaryOperator? c.peek (c.peekAt 1) with
    | none => exact past_stop left
    | some found =>
      apply past_ite
      · intro _
        exact past_stop left
      · intro _
        exact past_advance (not_eof_of_binaryOperator hop)
  · intro s c n
    rw [hsolves.unfolds]
    obtain ⟨least, left⟩ := s
    show (match binaryOperator? c.peek (c.peekAt 1) with
      | none => Pure.pure left
      | some (op, width) => _ : Parse Expr) c n =
        ((match binaryOperator? c.peek (c.peekAt 1) with
          | none => Pure.pure (Turn.stop left)
          | some (op, width) => _) >>= Turn.follow _) c n
    cases binaryOperator? c.peek (c.peekAt 1) with
    | none => rfl
    | some found =>
      simp only [operands, bind_assoc, ite_bind, pure_bind, Turn.follow, id, bind_pure]

/-! ## Lambdas -/

/-- What a token of a parameter list makes of the brackets that are open and of the name
    seen last. -/
def nameTurn (t : Token) : Nat × Option String → Turn (Nat × Option String) (List String)
  | (depth, current) =>
    if t.isAnySymbol [.openParen, .less, .openBracket] then .again (depth + 1, current) id
    else if t.isAnySymbol [.closeParen, .greater, .closeBracket] && 0 < depth then
      .again (depth - 1, current) id
    else if depth = 0 && t.isSymbol .closeParen then .stop current.toList
    else if depth = 0 && t.isSymbol .comma then .again (depth, none) (current.toList ++ ·)
    else if depth = 0 && t.isIdentifier then .again (depth, some t.text) id
    else .again (depth, current) id

theorem lambdaNames_cons (depth : Nat) (current : Option String) (last : Span) (t : Token)
    (ts : List Token) :
    lambdaNames depth current last (t :: ts) =
      match nameTurn t (depth, current) with
      | .stop names => (names, t.span, ts)
      | .again s wrap =>
        (wrap (lambdaNames s.1 s.2 t.span ts).1, (lambdaNames s.1 s.2 t.span ts).2) := by
  rw [lambdaNames, nameTurn]
  split
  · rfl
  split
  · rfl
  split
  · rfl
  split
  · rfl
  split
  · rfl
  · rfl

/-- A turn of reading the names of a parameter list. -/
def lambdaNamesTurn (s : Nat × Option String) :
    Parse (Turn (Nat × Option String) (List String)) := do
  match (← cursor).rest with
  | [] => return .stop []
  | t :: _ =>
    let _ ← advance
    return nameTurn t s

/-- The rest of a parameter list. -/
def lambdaNamesRest (s : Nat × Option String) : Parse (List String) := fun c n =>
  let (names, last, rest) := lambdaNames s.1 s.2 c.last c.rest
  .ok names { c with last, rest } n

instance (s : Nat × Option String) : Forward (lambdaNamesRest s) where
  reaches {c d n m v} h := by
    cases h
    exact lambdaNames_reaches s.1 s.2 c.last c.rest c.stop

theorem lambdaNamesRest_repeats : Repeats lambdaNamesTurn lambdaNamesRest := by
  apply repeats_of_eq
  · intro s c
    apply past_look
    cases hrest : c.rest with
    | nil => exact past_stop []
    | cons t ts => exact past_advance_of_rest hrest
  · intro s c n
    obtain ⟨last, rest, stop⟩ := c
    cases rest with
    | nil => rfl
    | cons t ts =>
      show (let (names, last, rest) := lambdaNames s.1 s.2 last (t :: ts)
        Step.ok names ⟨last, rest, stop⟩ n) =
          Turn.follow lambdaNamesRest (nameTurn t s) ⟨t.span, ts, stop⟩ n
      rw [lambdaNames_cons]
      cases nameTurn t s with
      | stop names => rfl
      | again s' wrap => rfl

/-! ## Looking ahead for an arrow -/

/-- Looks for an arrow as `arrowFollows` does, but gives nothing when a parenthesis closes
    that none has opened. -/
def arrowFollows? : Nat → List Token → Option Bool
  | _, [] => some false
  | depth, t :: ts =>
    if t.isSymbol .openParen then arrowFollows? (depth + 1) ts
    else if t.isSymbol .closeParen then
      match depth with
      | 0 => none
      | 1 => some (ts.head?.any (·.isSymbol .arrow))
      | outer + 2 => arrowFollows? (outer + 1) ts
    else arrowFollows? depth ts

theorem arrowFollows?_succ (depth : Nat) (ts : List Token) :
    arrowFollows? (depth + 1) ts = some (arrowFollows (depth + 1) ts) := by
  induction ts generalizing depth with
  | nil => rfl
  | cons t ts ih =>
    unfold arrowFollows? arrowFollows
    split
    · exact ih (depth + 1)
    split
    · cases depth with
      | zero => rfl
      | succ depth => exact ih depth
    · exact ih depth

/-- A look-ahead that starts at a parenthesis never closes one too many. -/
theorem arrowFollows?_eq {c : Cursor} (h : c.peek.isSymbol .openParen = true) :
    arrowFollows? 0 c.rest = some (arrowFollows 0 c.rest) := by
  obtain ⟨last, rest, stop⟩ := c
  cases rest with
  | nil => cases h
  | cons t ts =>
    have ht : t.isSymbol .openParen = true := h
    unfold arrowFollows? arrowFollows
    rw [if_pos ht, if_pos ht]
    exact arrowFollows?_succ 0 ts

/-- The parameters of a lambda, if one begins here, where `look` looks for the arrow. -/
def lambdaParametersBy (look : List Token → Bool) : Parse (Option (List String)) := do
  let start ← cursor
  let next ← peekAt 1
  if (← atWord? "async") && (next.isIdentifier || next.isSymbol .openParen) then
    let _ ← advance
  let c ← cursor
  if c.peek.isName && (c.peekAt 1).isSymbol .arrow then
    let _ ← advance
    return some [c.peek.text]
  else if c.peek.isSymbol .openParen && look c.rest then
    let _ ← advance
    return some (← lambdaNamesRest (0, none))
  else
    rewind start
    return none

/-- Lambdas are found whatever a look ahead gives where it closes one parenthesis too many. -/
theorem lambdaParametersBy_eq {look : List Token → Bool}
    (h : ∀ ts follows, arrowFollows? 0 ts = some follows → look ts = follows) :
    lambdaParametersBy look = lambdaParameters? := by
  -- the parameters are read from behind a parenthesis, where the look ahead counts right
  have hlist : ∀ (found : Bool) (one other : Parse (Option (List String))) (c : Cursor) n,
      (if found then one
        else if c.peek.isSymbol .openParen && look c.rest then do
          let _ ← advance
          return some (← lambdaNamesRest (0, none))
        else other) c n =
      (if found then one
        else if c.peek.isSymbol .openParen && arrowFollows 0 c.rest then
          match lambdaNames 0 none c.peek.span c.next.rest with
          | (names, last, rest) => do
            rewind { c with last, rest }
            return some names
        else other) c n := by
    intro found one other c n
    by_cases hopen : c.peek.isSymbol .openParen = true
    · rw [h _ _ (arrowFollows?_eq hopen)]
      obtain ⟨last, rest, stop⟩ := c
      cases rest with
      | nil => cases hopen
      | cons t ts =>
        split
        · rfl
        split
        · rfl
        · rfl
    · simp only [Bool.not_eq_true] at hopen
      rw [hopen, Bool.false_and, Bool.false_and]
      rfl
  unfold lambdaParametersBy lambdaParameters?
  funext c n
  apply bind_congr_at rfl
  intro start d m _
  apply bind_congr_at rfl
  intro next d m _
  apply bind_congr_at rfl
  intro async d m _
  split
  · apply bind_congr_at rfl
    intro t d m _
    exact hlist _ _ _ d m
  · exact hlist _ _ _ d m

/-! ## Initializers -/

/-- The entries of an initializer stand behind its brace. -/
theorem initializerOf_congr {value value' : Parse Expr} [Forward value]
    (h : ∀ d m, c.Passes d → value d m = value' d m) :
    initializerOf value c n = initializerOf value' c n := by
  apply bind_congr_at rfl
  intro brace d m hbrace
  have hsame : SameFrom d value value' := sameFrom_of_passes h (Strict.passes hbrace)
  have hfield : SameFrom d (fieldValue value) (fieldValue value') :=
    SameFrom.rfl.bind fun name => SameFrom.rfl.bind fun _ => hsame.bind fun _ => .rfl
  refine (SameFrom.rfl.bind fun empty => .ite .rfl ?_).here
  refine SameFrom.rfl.bind fun t => SameFrom.rfl.bind fun next => .ite ?_ ?_
  · exact (hfield.itemsUntil .closeBrace).bind fun _ => .rfl
  · exact (hsame.itemsUntil .closeBrace).bind fun _ => .rfl

/-- An entry of an initializer, of which entries in braces are read by `value`. -/
def initializerValueOf (g : Grammar) (value : Parse Expr) : Parse Expr := do
  if ← at? .openBrace then
    let start ← here
    let braces ← initializerOf value
    return .object none none braces (start.cover (← last))
  else g.assignment

omit [g.Forward] in
theorem initializerValueOf_guarded :
    Guarded fun (value : Unit → Parse Expr) _ => initializerValueOf g (value ()) := by
  intro p q c n hforward hagree _
  have hinner := hforward ()
  apply bind_congr_at rfl
  intro brace d m hat
  cases hat
  split
  · apply bind_congr_at rfl
    intro start d m hhere
    cases hhere
    have hbraces := initializerOf_congr (n := n) (hagree ())
    exact bind_congr_at hbraces fun _ _ _ _ => rfl
  · rfl

theorem initializerValue_solves :
    Solves (fun (value : Unit → Parse Expr) _ => initializerValueOf g (value ()))
      fun _ => initializerValue g := by
  have hforward : ∀ k, Forward (initializerValueWithin g k) := forward_initializerValueWithin
  apply initializerValueOf_guarded.solves_bounded fun k _ => initializerValueWithin g k
  · intro k _
    funext c n
    show (if c.peek.isSymbol .openBrace then _ else g.assignment c n) =
      (if c.peek.isSymbol .openBrace then _ else g.assignment) c n
    split <;> rfl
  · intro _ last stop n
    rfl

end Expressions

end Parse

end GatewayPolicy
