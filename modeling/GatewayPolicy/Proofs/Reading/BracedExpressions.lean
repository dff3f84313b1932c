import GatewayPolicy.Proofs.Reading.Braces
import GatewayPolicy.Proofs.Reading.Productions

/-! # Types and expressions are level with braces

  Every production of types and expressions takes as many closing braces as opening ones.
  Most have it from their parts. The others take a token because of what it is, and it is no
  brace, or they open braces that a part of them closes.

  - `Grammar.level_within` is the result for expressions.
-/

namespace GatewayPolicy

-- a production of many steps takes an instance for each of them
set_option synthInstance.maxSize 1024

namespace Parse

/-! ## Types -/

section Types

variable {type : Parse String} [Level type]

instance : Level (typeArgumentsOf type) := by
  unfold typeArgumentsOf
  infer_instance

instance (k : Nat) : Level (typePathWithin type k) := by
  induction k with
  | zero =>
    unfold typePathWithin
    infer_instance
  | succ k ih =>
    unfold typePathWithin
    refine Level.bind inferInstance fun generic => ?_
    extract_lets tail
    -- a dot and a name are taken because of what they are
    have htail : ∀ u, Level (tail u) := by
      intro u
      refine .of_at fun c => ?_
      refine levelAt_look (fun _ => rfl) (levelAt_look (fun _ => rfl) ?_)
      split
      · rename_i hpath
        obtain ⟨hdot, hname⟩ := Bool.and_eq_true_iff.1 hpath
        rw [← c.peek_next] at hname
        exact levelAt_advance (Token.not_isBrace_of_isAnySymbol hdot (by decide))
          (levelAt_advance (Token.not_isBrace_of_isIdentifier hname) (ih.at _))
      · exact Level.at inferInstance c
    split
    · exact Level.bind inferInstance fun _ => htail ()
    · exact htail ()

instance (k : Nat) : Level (typeEndingWithin k) := by
  induction k with
  | zero =>
    unfold typeEndingWithin
    infer_instance
  | succ k ih =>
    refine .of_at fun c => ?_
    unfold typeEndingWithin
    refine levelAt_look (fun _ => rfl) (levelAt_look (fun _ => rfl) ?_)
    split
    · rename_i hmark
      have hquestion := (Bool.and_eq_true_iff.1 hmark).1
      exact levelAt_advance (Token.isBrace_of_isSymbol hquestion) (ih.at _)
    · exact Level.at inferInstance c

instance level_typeOf : Level (typeOf type) := by
  refine .of_at fun c => ?_
  unfold typeOf
  refine levelAt_look (fun _ => rfl) ?_
  split
  · exact Level.at inferInstance c
  · split
    · rename_i hname
      have hword := (Bool.and_eq_true_iff.1 hname).1
      exact levelAt_advance (Token.not_isBrace_of_isIdentifier hword) (Level.at inferInstance _)
    · exact Level.at inferInstance c

theorem level_typeWithin (depth : Nat) : Level (typeWithin depth) := by
  induction depth with
  | zero => exact inferInstanceAs (Level (expected .typeName))
  | succ depth ih => exact @level_typeOf (typeWithin depth) ih

instance : Level typeName := @level_bounded _ typeWithin level_typeWithin

instance : Level typeArguments := by
  unfold typeArguments
  infer_instance

instance : Level callTypeArguments := by
  unfold callTypeArguments
  infer_instance

end Types

end Parse

/-! ## Expressions -/

/-- A grammar whose productions are level with braces. -/
class Grammar.Level (g : Grammar) : Prop where
  assignment : Parse.Level g.assignment
  unary : Parse.Level g.unary

attribute [instance] Grammar.Level.assignment Grammar.Level.unary

namespace Parse

section Expressions

variable {g : Grammar} [Grammar.Level g]

instance (inAttribute : Bool) : Level (argument g inAttribute) := by
  refine .of_at fun c => ?_
  unfold argument
  refine levelAt_look (fun _ => rfl) (levelAt_look (fun _ => rfl) (levelAt_look (fun _ => rfl) ?_))
  dsimp only
  split
  · rename_i hnamed
    -- a name and the sign behind it are taken
    obtain ⟨hname, hsign⟩ := Bool.and_eq_true_iff.1 hnamed
    rw [← c.peek_next] at hsign
    have hplain : c.next.peek.isBrace = false := by
      rcases Bool.or_eq_true_iff.1 hsign with hcolon | hassign
      · exact Token.isBrace_of_isSymbol hcolon
      · exact Token.isBrace_of_isSymbol (Bool.and_eq_true_iff.1 hassign).2
    exact levelAt_advance (Token.not_isBrace_of_isIdentifier hname)
      (levelAt_advance hplain (Level.at inferInstance _))
  · exact Level.at inferInstance c

instance : Level (argumentList g) := by
  unfold argumentList
  infer_instance

instance (target : Expr) (types : List String) : Level (callOf g target types) := by
  unfold callOf
  infer_instance

instance (target : Expr) : Level (genericCall g target) := by
  unfold genericCall
  apply Level.bind inferInstance
  intro generic
  split
  · apply Level.bind inferInstance
    intro types
    cases types <;> infer_instance
  · infer_instance

instance {value : Parse Expr} [Level value] : Level (fieldValue value) := by
  unfold fieldValue
  infer_instance

instance level_initializerOf {value : Parse Expr} [Level value] :
    Level (initializerOf value) := by
  unfold initializerOf
  infer_instance

theorem level_initializerValueWithin (depth : Nat) : Level (initializerValueWithin g depth) := by
  induction depth with
  | zero => exact Grammar.Level.assignment
  | succ depth ih =>
    -- a value in braces opens and closes them, any other one is an expression
    have hbraces := @level_initializerOf (initializerValueWithin g depth) ih
    constructor
    intro c d n m v h
    unfold initializerValueWithin at h
    split at h
    · exact Level.level h
    · exact Level.level h

instance : Level (initializerValue g) :=
  @level_bounded _ (initializerValueWithin g) level_initializerValueWithin

instance (close : Symbol) [close.Unbraced] : Level (elements g close) := by
  unfold elements
  infer_instance

instance : Closing (elements g .closeBrace) := by
  unfold elements
  infer_instance

instance (start : Span) (type : Option String) : Level (newArray g start type) := by
  unfold newArray
  infer_instance

instance (start : Span) (type : Option String) : Level (newObject g start type) := by
  unfold newObject
  infer_instance

instance : Level (newExpression g) := by
  unfold newExpression
  infer_instance

/-- A literal is no brace. -/
theorem levelAt_literalOf {c : Cursor} (h : c.peek.isBrace = false) (kind : LiteralKind)
    (value : String) : LevelAt c (literalOf kind value) := by
  unfold literalOf
  exact levelAt_advance h (Level.at inferInstance _)

theorem levelAt_wordExpression {c : Cursor} (h : c.peek.isIdentifier = true) (t : Token) :
    LevelAt c (wordExpression g t) := by
  have hplain := Token.not_isBrace_of_isIdentifier h
  unfold wordExpression
  split
  · exact levelAt_literalOf hplain _ _
  split
  · exact levelAt_literalOf hplain _ _
  split
  · exact Level.at inferInstance c
  split
  · exact levelAt_advance hplain (Level.at inferInstance _)
  split
  · exact levelAt_advance hplain (Level.at inferInstance _)
  split
  · exact Level.at inferInstance c
  · exact levelAt_advance hplain (Level.at inferInstance _)

instance : Level (primary g) := by
  refine .of_at fun c => ?_
  unfold primary
  refine levelAt_look (fun _ => rfl) ?_
  split <;> rename_i hkind
  -- names, parentheses and brackets; what is left are literals
  case h_7 => exact levelAt_wordExpression (decide_eq_true hkind) _
  case h_8 =>
    have hplain : c.peek.isBrace = false := by rw [Token.isBrace, hkind]; rfl
    exact levelAt_advance hplain (Level.at inferInstance _)
  case h_9 =>
    have hplain : c.peek.isBrace = false := by rw [Token.isBrace, hkind]; rfl
    exact levelAt_advance hplain (Level.at inferInstance _)
  case h_10 => exact Level.at inferInstance c
  case h_11 => exact Level.at inferInstance c
  all_goals
    have hplain : c.peek.isBrace = false := by rw [Token.isBrace, hkind]
    exact levelAt_literalOf hplain _ _

instance (target : Expr) (conditional : Bool) : Level (memberOf target conditional) := by
  refine .of_at fun c => ?_
  unfold memberOf
  refine levelAt_look (fun _ => rfl) ?_
  split
  · rename_i hname
    exact levelAt_advance (Token.not_isBrace_of_isIdentifier hname) (Level.at inferInstance _)
  · exact Level.at inferInstance c

instance (target : Expr) : Level (indexOf g target) := by
  unfold indexOf
  infer_instance

instance (k : Nat) (e : Expr) : Level (trailersWithin g k e) := by
  induction k generalizing e with
  | zero =>
    unfold trailersWithin
    infer_instance
  | succ k ih =>
    refine .of_at fun c => ?_
    unfold trailersWithin
    refine levelAt_look (fun _ => rfl) ?_
    split
    · rename_i hdot
      exact levelAt_advance (Token.not_isBrace_of_isAnySymbol hdot (by decide))
        (Level.at inferInstance _)
    split
    · exact Level.at inferInstance c
    split
    · rename_i hbracket
      exact levelAt_advance (Token.isBrace_of_isSymbol hbracket) (Level.at inferInstance _)
    split
    · rename_i hstep
      exact levelAt_advance (Token.not_isBrace_of_isAnySymbol hstep (by decide))
        (Level.at inferInstance _)
    refine levelAt_look (fun _ => rfl) ?_
    split
    · rename_i hassert
      have hbang := (Bool.and_eq_true_iff.1 hassert).1
      exact levelAt_advance (Token.isBrace_of_isSymbol hbang) (Level.at inferInstance _)
    · exact Level.at inferInstance c

instance (e : Expr) : Level (trailers g e) := by
  unfold trailers
  infer_instance

instance : Level (castExpression g) := by
  unfold castExpression
  infer_instance

/-- An operator in front of an operand is no brace. -/
theorem leadingOperator_plain {t next : Token} {op : UnaryOp}
    (h : leadingOperator? t next = some op) : t.isBrace = false := by
  refine Token.not_isBrace_of_kind (fun hkind => ?_) (fun hkind => ?_)
  · rw [leadingOperator?, hkind] at h
    cases h
  · rw [leadingOperator?, hkind] at h
    cases h

instance level_unaryOf : Level (unaryOf g) := by
  refine .of_at fun c => ?_
  unfold unaryOf
  refine levelAt_look (fun _ => rfl) (levelAt_look (fun _ => rfl) ?_)
  split
  · rename_i hop
    exact levelAt_advance (leadingOperator_plain hop) (Level.at inferInstance _)
  · split
    · refine Level.at ?_ c
      apply Level.bind inferInstance
      intro cast
      cases cast <;> infer_instance
    · exact Level.at inferInstance c

instance : Level (typePattern g) := by
  unfold typePattern
  refine Level.bind inferInstance fun start => Level.bind inferInstance fun _ => ?_
  refine Level.bind inferInstance fun t => ?_
  split
  · infer_instance
  split
  · infer_instance
  refine Level.bind inferInstance fun type => .of_at fun c => ?_
  refine levelAt_look (fun _ => rfl) ?_
  split
  · rename_i hname
    exact levelAt_advance (Token.not_isBrace_of_isName hname) (Level.at inferInstance _)
  · exact Level.at inferInstance c

/-- The tokens of an operator between operands are no braces. -/
theorem binaryOperator_plain {t next : Token} {op : BinaryOp} {width : Nat}
    (h : binaryOperator? t next = some (op, width)) :
    t.isBrace = false ∧ (width = 2 → next.isBrace = false) := by
  unfold binaryOperator? at h
  split at h
  · rename_i hword
    cases h
    exact ⟨Token.not_isBrace_of_isWord hword, nofun⟩
  split at h
  · rename_i hword
    cases h
    exact ⟨Token.not_isBrace_of_isWord hword, nofun⟩
  split at h
  · rename_i s hkind
    have hsymbol : t.isSymbol s = true := decide_eq_true hkind
    split at h
    · rename_i hshift
      cases h
      simp only [Bool.and_eq_true, decide_eq_true_eq] at hshift
      obtain ⟨⟨rfl, hgreater⟩, -⟩ := hshift
      exact ⟨Token.isBrace_of_isSymbol hsymbol, fun _ => Token.isBrace_of_isSymbol hgreater⟩
    · obtain ⟨op', hop, heq⟩ := Option.map_eq_some_iff.1 h
      cases heq
      refine ⟨(Token.isBrace_of_isSymbol hsymbol).trans (Symbol.plain_of_ne ?_ ?_), nofun⟩
      · rintro rfl
        cases hop
      · rintro rfl
        cases hop
  · cases h

instance (k least : Nat) (left : Expr) : Level (operandsWithin g k least left) := by
  induction k generalizing least left with
  | zero =>
    unfold operandsWithin
    infer_instance
  | succ k ih =>
    refine .of_at fun c => ?_
    unfold operandsWithin
    refine levelAt_look (fun _ => rfl) (levelAt_look (fun _ => rfl) ?_)
    split
    · exact Level.at inferInstance c
    · rename_i op width hop
      obtain ⟨hplain, hwide⟩ := binaryOperator_plain hop
      -- the second token of a wide operator is the next but one
      rw [← c.peek_next] at hwide
      dsimp only
      split
      · exact Level.at inferInstance c
      · refine levelAt_advance hplain ?_
        split
        · rename_i htwo
          exact levelAt_advance (hwide htwo) (Level.at inferInstance _)
        · exact Level.at inferInstance _

instance (least : Nat) : Level (operands g least) := by
  unfold operands
  infer_instance

instance : Level (conditional g) := by
  unfold conditional
  infer_instance

/-- The parameters of a lambda are loose. -/
instance : Level lambdaParameters? where
  level {c d n m names?} h := by
    cases names? with
    | none =>
      obtain rfl := (lambdaParameters_reaches h).2 rfl
      exact .refl _
    | some names => exact .loose (.lambda h) (.done _)

instance : Level (lambda? g) := by
  unfold lambda?
  apply Level.bind inferInstance
  intro start
  apply Level.bind inferInstance
  intro parameters
  cases parameters <;> infer_instance

instance level_assignmentOf : Level (assignmentOf g) := by
  unfold assignmentOf
  apply Level.bind inferInstance
  intro lambda
  split
  · infer_instance
  · refine Level.bind inferInstance fun target => .of_at fun c => ?_
    refine levelAt_look (fun _ => rfl) ?_
    dsimp only
    split
    · exact Level.at inferInstance c
    · rename_i op hop
      refine levelAt_advance ?_ (Level.at inferInstance _)
      refine Token.not_isBrace_of_kind (fun hkind => ?_) (fun hkind => ?_)
      · rw [hkind] at hop
        cases hop
      · rw [hkind] at hop
        cases hop

end Expressions

end Parse

instance Grammar.level_within (levels : Nat) : Grammar.Level (Grammar.within levels) := by
  induction levels with
  | zero => exact ⟨inferInstanceAs (Parse.Level Parse.tooDeep),
      inferInstanceAs (Parse.Level Parse.tooDeep)⟩
  | succ levels ih => exact ⟨Parse.level_assignmentOf, Parse.level_unaryOf⟩

end GatewayPolicy
