import GatewayPolicy.Proofs.Reading.Progress

/-! # Productions go forward

  Every production of types, expressions and declarations only takes tokens. Most
  have it from their parts; the few that go back to an earlier place go forward
  from there.

  - `Grammar.forward_within` is the result for expressions.
-/

namespace GatewayPolicy

-- a production of many steps takes an instance for each of them
set_option synthInstance.maxSize 1024

namespace Parse

/-! ## Types -/

section Types

variable {type : Parse String} [Forward type]

instance : Forward (typeArgumentsOf type) := by
  unfold typeArgumentsOf
  infer_instance

instance (k : Nat) : Forward (typePathWithin type k) := by
  induction k with
  | zero =>
    unfold typePathWithin
    infer_instance
  | succ k ih =>
    unfold typePathWithin
    infer_instance

instance (k : Nat) : Forward (typeEndingWithin k) := by
  induction k with
  | zero =>
    unfold typeEndingWithin
    infer_instance
  | succ k ih =>
    unfold typeEndingWithin
    infer_instance

instance forward_typeOf : Forward (typeOf type) := by
  unfold typeOf
  infer_instance

theorem forward_typeWithin (depth : Nat) : Forward (typeWithin depth) := by
  induction depth with
  | zero => exact inferInstanceAs (Forward (expected .typeName))
  | succ depth ih => exact @forward_typeOf (typeWithin depth) ih

instance : Forward typeName := @forward_bounded _ typeWithin forward_typeWithin

instance : Forward typeArguments := by
  unfold typeArguments
  infer_instance

instance : Forward callTypeArguments := by
  unfold callTypeArguments
  infer_instance

end Types

end Parse

/-! ## Expressions -/

/-- A grammar whose productions only take tokens. -/
class Grammar.Forward (g : Grammar) : Prop where
  assignment : Parse.Forward g.assignment
  unary : Parse.Forward g.unary

attribute [instance] Grammar.Forward.assignment Grammar.Forward.unary

namespace Parse

section Expressions

variable {g : Grammar} [Grammar.Forward g]

instance (inAttribute : Bool) : Forward (argument g inAttribute) := by
  unfold argument
  infer_instance

instance : Forward (argumentList g) := by
  unfold argumentList
  infer_instance

instance (target : Expr) (types : List String) : Forward (callOf g target types) := by
  unfold callOf
  infer_instance

instance (target : Expr) : Forward (genericCall g target) := by
  unfold genericCall
  apply Forward.bind inferInstance
  intro generic
  split
  · apply Forward.bind inferInstance
    intro types
    cases types <;> infer_instance
  · infer_instance

instance {value : Parse Expr} [Forward value] : Forward (fieldValue value) := by
  unfold fieldValue
  infer_instance

instance forward_initializerOf {value : Parse Expr} [Forward value] :
    Forward (initializerOf value) := by
  unfold initializerOf
  infer_instance

theorem forward_initializerValueWithin (depth : Nat) :
    Forward (initializerValueWithin g depth) := by
  induction depth with
  | zero => exact Grammar.Forward.assignment
  | succ depth ih =>
    have hbraces := @forward_initializerOf (initializerValueWithin g depth) ih
    constructor
    intro c d n m v h
    unfold initializerValueWithin at h
    split at h
    · exact Forward.reaches h
    · exact Forward.reaches h

instance : Forward (initializerValue g) :=
  @forward_bounded _ (initializerValueWithin g) forward_initializerValueWithin

instance (close : Symbol) : Forward (elements g close) := by
  unfold elements
  infer_instance

instance (start : Span) (type : Option String) : Forward (newArray g start type) := by
  unfold newArray
  infer_instance

instance (start : Span) (type : Option String) : Forward (newObject g start type) := by
  unfold newObject
  infer_instance

instance : Forward (newExpression g) := by
  unfold newExpression
  infer_instance

instance (kind : LiteralKind) (value : String) : Forward (literalOf kind value) := by
  unfold literalOf
  infer_instance

instance (t : Token) : Forward (wordExpression g t) := by
  unfold wordExpression
  infer_instance

instance : Forward (primary g) := by
  unfold primary
  apply Forward.bind inferInstance
  intro t
  split <;> infer_instance

instance (target : Expr) (conditional : Bool) : Forward (memberOf target conditional) := by
  unfold memberOf
  infer_instance

instance (target : Expr) : Forward (indexOf g target) := by
  unfold indexOf
  infer_instance

instance (k : Nat) (e : Expr) : Forward (trailersWithin g k e) := by
  induction k generalizing e with
  | zero =>
    unfold trailersWithin
    infer_instance
  | succ k ih =>
    unfold trailersWithin
    infer_instance

instance (e : Expr) : Forward (trailers g e) := by
  unfold trailers
  infer_instance

instance : Forward (castExpression g) := by
  unfold castExpression
  infer_instance

instance forward_unaryOf : Forward (unaryOf g) := by
  unfold unaryOf
  apply Forward.bind inferInstance
  intro t
  apply Forward.bind inferInstance
  intro next
  split
  · infer_instance
  · split
    · apply Forward.bind inferInstance
      intro cast
      cases cast <;> infer_instance
    · infer_instance

instance : Forward (typePattern g) := by
  unfold typePattern
  infer_instance

instance (k least : Nat) (left : Expr) : Forward (operandsWithin g k least left) := by
  induction k generalizing least left with
  | zero =>
    unfold operandsWithin
    infer_instance
  | succ k ih =>
    unfold operandsWithin
    apply Forward.bind inferInstance
    intro t
    apply Forward.bind inferInstance
    intro next
    split <;> infer_instance

instance (least : Nat) : Forward (operands g least) := by
  unfold operands
  infer_instance

instance : Forward (conditional g) := by
  unfold conditional
  infer_instance

/-- The parameters of a lambda are taken one token after the other. -/
theorem lambdaNames_reaches (depth : Nat) (current : Option String) (last : Span)
    (ts : List Token) (stop : Span) :
    Cursor.Reaches ⟨last, ts, stop⟩
      ⟨(lambdaNames depth current last ts).2.1, (lambdaNames depth current last ts).2.2, stop⟩ := by
  induction ts generalizing depth current last with
  | nil =>
    unfold lambdaNames
    exact .refl _
  | cons t ts ih =>
    have hnext : Cursor.Reaches ⟨last, t :: ts, stop⟩ ⟨t.span, ts, stop⟩ := Cursor.reaches_next _
    unfold lambdaNames
    split
    · exact hnext.trans (ih ..)
    · split
      · exact hnext.trans (ih ..)
      · split
        · exact hnext
        · split
          · exact hnext.trans (ih ..)
          · split
            · exact hnext.trans (ih ..)
            · exact hnext.trans (ih ..)

/-- Of a lambda that begins here the parameters are taken, and else nothing is. -/
theorem lambdaParameters_reaches {c d : Cursor} {n m : Nesting} {names : Option (List String)}
    (h : lambdaParameters? c n = .ok names d m) : c.Reaches d ∧ (names = none → d = c) := by
  obtain ⟨start, _, _, hstart, h⟩ := bind_eq_ok h
  cases hstart
  obtain ⟨next, _, _, hnext, h⟩ := bind_eq_ok h
  cases hnext
  obtain ⟨async, _, _, hasync, h⟩ := bind_eq_ok h
  cases hasync
  extract_lets tail at h
  have htail : ∀ c', c.Reaches c' → ∀ n', tail () c' n' = .ok names d m →
      c.Reaches d ∧ (names = none → d = c) := by
    intro c' hreach n' h
    obtain ⟨_, _, _, hcursor, h⟩ := bind_eq_ok h
    cases hcursor
    split at h
    · obtain ⟨_, _, _, hadvance, h⟩ := bind_eq_ok h
      cases hadvance
      cases h
      exact ⟨hreach.trans (Cursor.reaches_next _), nofun⟩
    · split at h
      · rename_i hparen
        have hopening := Token.not_eof_of_isSymbol (Bool.and_eq_true_iff.1 hparen).1
        have hnames := lambdaNames_reaches 0 none c'.peek.span c'.next.rest c'.stop
        rw [← Cursor.next_eq hopening] at hnames
        obtain ⟨_, _, _, hrewind, h⟩ := bind_eq_ok h
        cases hrewind
        cases h
        exact ⟨hreach.trans ((Cursor.reaches_next c').trans hnames), nofun⟩
      · obtain ⟨_, _, _, hrewind, h⟩ := bind_eq_ok h
        cases hrewind
        cases h
        exact ⟨.refl _, fun _ => rfl⟩
  split at h
  · obtain ⟨_, _, _, hadvance, h⟩ := bind_eq_ok h
    cases hadvance
    exact htail _ (Cursor.reaches_next c) _ h
  · exact htail c (.refl c) _ h

instance : Forward lambdaParameters? where
  reaches h := (lambdaParameters_reaches h).1

instance : Forward (lambda? g) := by
  unfold lambda?
  apply Forward.bind inferInstance
  intro start
  apply Forward.bind inferInstance
  intro parameters
  cases parameters <;> infer_instance

instance forward_assignmentOf : Forward (assignmentOf g) := by
  unfold assignmentOf
  apply Forward.bind inferInstance
  intro lambda
  split
  · infer_instance
  · apply Forward.bind inferInstance
    intro target
    apply Forward.bind inferInstance
    intro t
    dsimp only
    split <;> infer_instance

end Expressions

end Parse

instance Grammar.forward_within (levels : Nat) : Grammar.Forward (Grammar.within levels) := by
  induction levels with
  | zero => exact ⟨inferInstanceAs (Parse.Forward Parse.tooDeep),
      inferInstanceAs (Parse.Forward Parse.tooDeep)⟩
  | succ levels ih => exact ⟨Parse.forward_assignmentOf, Parse.forward_unaryOf⟩

/-! ## Declarations -/

namespace Parse

section Declarations

variable {g : Grammar} [Grammar.Forward g] {e : Parse Expr} [Forward e]

instance (k : Nat) : Forward (qualifiedTailWithin k) := by
  induction k with
  | zero =>
    unfold qualifiedTailWithin
    infer_instance
  | succ k ih =>
    unfold qualifiedTailWithin
    infer_instance

instance : Forward qualifiedName := by
  unfold qualifiedName
  infer_instance

instance : Forward (attributeUse g) := by
  unfold attributeUse
  infer_instance

instance (k : Nat) : Forward (attributesWithin g k) := by
  induction k with
  | zero =>
    unfold attributesWithin
    infer_instance
  | succ k ih =>
    unfold attributesWithin
    infer_instance

instance (k : Nat) : Forward (attributeListsWithin g k) := by
  induction k with
  | zero =>
    unfold attributeListsWithin
    infer_instance
  | succ k ih =>
    unfold attributeListsWithin
    infer_instance

instance : Forward (attributeLists g) := by
  unfold attributeLists
  infer_instance

instance : Forward modifiers := by
  unfold modifiers
  infer_instance

instance : Forward (parameter g) := by
  unfold parameter
  infer_instance

instance : Forward (parameters g) := by
  unfold parameters
  infer_instance

/-- A body is an expression up to a semicolon, or else it is skipped from its start on. -/
theorem expressionBody_eq_ok {e : Parse Expr} {c d : Cursor} {n m : Nesting} {x : Expr}
    (h : expressionBody e c n = .ok x d m) :
    (e c n = .ok x d m ∧ d.peek.isSymbol .semicolon = true) ∨
      ∃ n', (do
        skipUntilSemicolon
        return .unparsed (c.peek.span.cover (← last)) : Parse Expr) c n' = .ok x d m := by
  obtain ⟨_, _, _, hstart, h⟩ := bind_eq_ok h
  cases hstart
  obtain ⟨outcome, c', n', houtcome, h⟩ := bind_eq_ok h
  obtain ⟨whole, _, _, hwhole, h⟩ := bind_eq_ok h
  cases hwhole
  obtain ⟨tooDeep, _, _, htooDeep, h⟩ := bind_eq_ok h
  cases htooDeep
  unfold observe at houtcome
  split at houtcome
  · cases houtcome
    dsimp only at h
    split at h
    · rename_i hsemicolon
      cases h
      exact .inl ⟨‹_›, hsemicolon⟩
    · exact .inr ⟨n', h⟩
  · cases houtcome
    dsimp only at h
    split at h
    · cases h
    · exact .inr ⟨n', h⟩

instance : Forward (expressionBody e) where
  reaches h := by
    rcases expressionBody_eq_ok h with ⟨hread, -⟩ | ⟨_, hskip⟩
    · exact Forward.reaches hread
    · exact Forward.reaches hskip

/-- The value of a field is an expression, or else it is skipped from its start on. -/
theorem fieldInitializer_eq_ok {e : Parse Expr} {c d : Cursor} {n m : Nesting} {v : Option Expr}
    (h : fieldInitializer e c n = .ok v d m) :
    (∃ x, v = some x ∧ e c n = .ok x d m) ∨
      v = none ∧ ∃ n', (do
        skipTo Token.isOpening (·.isAnySymbol [.comma, .semicolon, .closeBrace])
        if ← atAny? [.comma, .semicolon] then return none
        else expected (.symbol .semicolon) : Parse (Option Expr)) c n' = .ok none d m := by
  obtain ⟨_, _, _, hstart, h⟩ := bind_eq_ok h
  cases hstart
  obtain ⟨outcome, c', n', houtcome, h⟩ := bind_eq_ok h
  obtain ⟨whole, _, _, hwhole, h⟩ := bind_eq_ok h
  cases hwhole
  extract_lets skipped at h
  -- what is skipped has no value
  have hskipped : ∀ {n' v}, skipped c' n' = .ok v d m → v = none := by
    intro n' v h
    obtain ⟨_, _, _, -, h⟩ := bind_eq_ok h
    obtain ⟨_, _, _, -, h⟩ := bind_eq_ok h
    obtain ⟨_, _, _, -, h⟩ := bind_eq_ok h
    split at h <;> cases h
    rfl
  unfold observe at houtcome
  split at houtcome
  · cases houtcome
    dsimp only at h
    split at h
    · cases h
      exact .inl ⟨_, rfl, ‹_›⟩
    · obtain rfl := hskipped h
      exact .inr ⟨rfl, n', h⟩
  · cases houtcome
    obtain rfl := hskipped h
    exact .inr ⟨rfl, n', h⟩

instance : Forward (fieldInitializer e) where
  reaches h := by
    rcases fieldInitializer_eq_ok h with ⟨_, -, hread⟩ | ⟨-, _, hskip⟩
    · exact Forward.reaches hread
    · exact Forward.reaches hskip

instance (type : String) (isConst : Bool) (k : Nat) (name : Token) :
    Forward (fieldsWithin e type isConst k name) := by
  induction k generalizing name with
  | zero =>
    unfold fieldsWithin
    infer_instance
  | succ k ih =>
    unfold fieldsWithin
    infer_instance

instance (type : String) (isConst : Bool) (first : Token) :
    Forward (fields e type isConst first) := by
  unfold fields
  infer_instance

instance (k : Nat) (name : Token) : Forward (memberNameWithin k name) := by
  induction k generalizing name with
  | zero =>
    unfold memberNameWithin
    infer_instance
  | succ k ih =>
    unfold memberNameWithin
    infer_instance

instance (start : Span) {skip : Parse Unit} [Forward skip] :
    Forward (skippedMember start skip) := by
  unfold skippedMember
  infer_instance

instance : Forward baseType := by
  unfold baseType
  infer_instance

end Declarations

end Parse

end GatewayPolicy
