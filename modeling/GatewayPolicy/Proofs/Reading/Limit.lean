import GatewayPolicy.Authoring.Unit
import GatewayPolicy.Proofs.Reading.Loosening

/-! # The nesting limit only refuses

  A file that is read within a limit is read to the same tree within every larger
  one. Much is tried and given up while a file is read: declarations that turn out
  to be expressions, casts, values of fields, bodies, statements that are skipped.
  Had one of these attempts come down to the limit, something else might have been
  read in its place, so such a file is refused.

  - Every production of a grammar loosens when the grammar does.
  - `CodeGrammar.below` is the grammar with any productions below the limit, and
    `SourceTree.ReachesLimit` says that it matters which ones these are.
  - `SourceTree.parseWithin_limit` is the result.
-/

namespace GatewayPolicy

-- a production of many steps takes an instance for each of them
set_option synthInstance.maxSize 1024

/-! ## Expressions -/

/-- A grammar and one that allows more. -/
class Grammar.Loosens (g g' : Grammar) : Prop where
  assignment : Parse.Loosens g.assignment g'.assignment
  unary : Parse.Loosens g.unary g'.unary

attribute [instance] Grammar.Loosens.assignment Grammar.Loosens.unary

namespace Parse

section Expressions

variable {g g' : Grammar} [Grammar.Loosens g g']

instance (inAttribute : Bool) : Loosens (argument g inAttribute) (argument g' inAttribute) := by
  unfold argument
  infer_instance

instance : Loosens (argumentList g) (argumentList g') := by
  unfold argumentList
  infer_instance

instance (target : Expr) (types : List String) :
    Loosens (callOf g target types) (callOf g' target types) := by
  unfold callOf
  infer_instance

instance (target : Expr) : Loosens (genericCall g target) (genericCall g' target) := by
  unfold genericCall
  apply Loosens.bind inferInstance
  intro generic
  split
  · apply Loosens.bind inferInstance
    intro types
    cases types <;> infer_instance
  · infer_instance

instance {value value' : Parse Expr} [Loosens value value'] :
    Loosens (fieldValue value) (fieldValue value') := by
  unfold fieldValue
  infer_instance

instance loosens_initializerOf {value value' : Parse Expr} [Loosens value value'] :
    Loosens (initializerOf value) (initializerOf value') := by
  unfold initializerOf
  infer_instance

theorem loosens_initializerValueWithin (depth : Nat) :
    Loosens (initializerValueWithin g depth) (initializerValueWithin g' depth) := by
  induction depth with
  | zero => exact Grammar.Loosens.assignment
  | succ depth ih =>
    have hbraces := @loosens_initializerOf (initializerValueWithin g depth)
      (initializerValueWithin g' depth) ih
    refine loosens_choice (·.isSymbol .openBrace) ?_ Grammar.Loosens.assignment
    infer_instance

instance : Loosens (initializerValue g) (initializerValue g') :=
  @loosens_bounded _ (initializerValueWithin g) (initializerValueWithin g')
    loosens_initializerValueWithin

instance (close : Symbol) : Loosens (elements g close) (elements g' close) := by
  unfold elements
  infer_instance

instance (start : Span) (type : Option String) :
    Loosens (newArray g start type) (newArray g' start type) := by
  unfold newArray
  infer_instance

instance (start : Span) (type : Option String) :
    Loosens (newObject g start type) (newObject g' start type) := by
  unfold newObject
  infer_instance

instance : Loosens (newExpression g) (newExpression g') := by
  unfold newExpression
  infer_instance

instance (kind : LiteralKind) (value : String) :
    Loosens (literalOf kind value) (literalOf kind value) := by
  unfold literalOf
  infer_instance

instance (t : Token) : Loosens (wordExpression g t) (wordExpression g' t) := by
  unfold wordExpression
  infer_instance

instance : Loosens (primary g) (primary g') := by
  unfold primary
  apply Loosens.bind inferInstance
  intro t
  split <;> infer_instance

instance (target : Expr) (conditional : Bool) :
    Loosens (memberOf target conditional) (memberOf target conditional) := by
  unfold memberOf
  infer_instance

instance (target : Expr) : Loosens (indexOf g target) (indexOf g' target) := by
  unfold indexOf
  infer_instance

instance (k : Nat) (e : Expr) : Loosens (trailersWithin g k e) (trailersWithin g' k e) := by
  induction k generalizing e with
  | zero =>
    unfold trailersWithin
    infer_instance
  | succ k ih =>
    unfold trailersWithin
    infer_instance

instance (e : Expr) : Loosens (trailers g e) (trailers g' e) := by
  unfold trailers
  infer_instance

instance : Loosens (castExpression g) (castExpression g') := by
  unfold castExpression
  infer_instance

instance loosens_unaryOf : Loosens (unaryOf g) (unaryOf g') := by
  unfold unaryOf
  apply Loosens.bind inferInstance
  intro t
  apply Loosens.bind inferInstance
  intro next
  split
  · infer_instance
  · split
    · apply Loosens.bind inferInstance
      intro cast
      cases cast <;> infer_instance
    · infer_instance

instance : Loosens (typePattern g) (typePattern g') := by
  unfold typePattern
  infer_instance

instance (k least : Nat) (left : Expr) :
    Loosens (operandsWithin g k least left) (operandsWithin g' k least left) := by
  induction k generalizing least left with
  | zero =>
    unfold operandsWithin
    infer_instance
  | succ k ih =>
    unfold operandsWithin
    apply Loosens.bind inferInstance
    intro t
    apply Loosens.bind inferInstance
    intro next
    split <;> infer_instance

instance (least : Nat) : Loosens (operands g least) (operands g' least) := by
  unfold operands
  infer_instance

instance : Loosens (conditional g) (conditional g') := by
  unfold conditional
  infer_instance

instance : Loosens lambdaParameters? lambdaParameters? := by
  unfold lambdaParameters?
  infer_instance

instance : Loosens (lambda? g) (lambda? g') := by
  unfold lambda?
  apply Loosens.bind inferInstance
  intro start
  apply Loosens.bind inferInstance
  intro parameters
  cases parameters <;> infer_instance

instance loosens_assignmentOf : Loosens (assignmentOf g) (assignmentOf g') := by
  unfold assignmentOf
  apply Loosens.bind inferInstance
  intro lambda
  split
  · infer_instance
  · apply Loosens.bind inferInstance
    intro target
    apply Loosens.bind inferInstance
    intro t
    dsimp only
    split <;> infer_instance

end Expressions

/-! ## Statements -/

section Statements

variable {e e' : Parse Expr} [Loosens e e'] {q q' : Parse Stmt} [Loosens q q']

/-- A statement that was skipped leaves the mark where it was set. -/
instance : Loosens (recovering q) (recovering q') := by
  unfold recovering
  apply Loosens.bind inferInstance
  intro start
  apply Loosens.bind inferInstance
  intro outcome
  cases outcome <;> infer_instance

instance (opening : Span) (k : Nat) :
    Loosens (statementsWithin opening q k) (statementsWithin opening q' k) := by
  induction k with
  | zero =>
    unfold statementsWithin
    infer_instance
  | succ k ih =>
    unfold statementsWithin
    infer_instance

instance : Loosens (block q) (block q') := by
  unfold block
  infer_instance

instance (which : OtherStatement) (start : Span) :
    Loosens (otherFrom which start) (otherFrom which start) := by
  unfold otherFrom
  infer_instance

instance (which : OtherStatement) : Loosens (jump which) (jump which) := by
  unfold jump
  infer_instance

instance : Loosens parenGroup parenGroup := by
  unfold parenGroup
  infer_instance

instance (which : OtherStatement) : Loosens (guarded which q) (guarded which q') := by
  unfold guarded
  infer_instance

instance : Loosens (usingStatement q) (usingStatement q') := by
  unfold usingStatement
  infer_instance

instance : Loosens (doStatement q) (doStatement q') := by
  unfold doStatement
  infer_instance

instance : Loosens switchStatement switchStatement := by
  unfold switchStatement
  infer_instance

instance (k : Nat) : Loosens (catchesWithin q k) (catchesWithin q' k) := by
  induction k with
  | zero =>
    unfold catchesWithin
    infer_instance
  | succ k ih =>
    unfold catchesWithin
    infer_instance

instance : Loosens (tryStatement q) (tryStatement q') := by
  unfold tryStatement
  infer_instance

instance : Loosens (ifStatement e q) (ifStatement e' q') := by
  unfold ifStatement
  infer_instance

instance (start : Span) : Loosens (localFunction start) (localFunction start) := by
  unfold localFunction
  infer_instance

instance : Loosens (localDeclaration e) (localDeclaration e') := by
  unfold localDeclaration
  apply Loosens.bind inferInstance
  intro start
  apply Loosens.bind inferInstance
  intro _
  apply Loosens.bind inferInstance
  intro awaits
  extract_lets tail tail'
  have htail : ∀ u, Loosens (tail u) (tail' u) := by
    intro u
    dsimp only [tail, tail']
    infer_instance
  infer_instance

instance : Loosens (expressionStatement e) (expressionStatement e') := by
  unfold expressionStatement
  infer_instance

instance : Loosens (plainStatement e) (plainStatement e') := by
  unfold plainStatement
  apply Loosens.bind inferInstance
  intro declaration
  cases declaration <;> infer_instance

instance (t next : Token) : Loosens (wordStatement e q t next) (wordStatement e' q' t next) := by
  unfold wordStatement
  split <;> infer_instance

instance loosens_statementOf : Loosens (statementOf e q) (statementOf e' q') := by
  unfold statementOf
  infer_instance

end Statements

end Parse

/-- The productions of code and those that allow more. -/
class CodeGrammar.Loosens (g g' : CodeGrammar) : Prop extends
    Grammar.Loosens g.toGrammar g'.toGrammar where
  statement : Parse.Loosens g.statement g'.statement

attribute [instance] CodeGrammar.Loosens.statement

/-! ## Declarations -/

namespace Parse

section Declarations

variable {g g' : Grammar} [Grammar.Loosens g g'] {e e' : Parse Expr} [Loosens e e']

instance (k : Nat) : Loosens (qualifiedTailWithin k) (qualifiedTailWithin k) := by
  induction k with
  | zero =>
    unfold qualifiedTailWithin
    infer_instance
  | succ k ih =>
    unfold qualifiedTailWithin
    infer_instance

instance : Loosens qualifiedName qualifiedName := by
  unfold qualifiedName
  infer_instance

instance : Loosens (attributeUse g) (attributeUse g') := by
  unfold attributeUse
  infer_instance

instance (k : Nat) : Loosens (attributesWithin g k) (attributesWithin g' k) := by
  induction k with
  | zero =>
    unfold attributesWithin
    infer_instance
  | succ k ih =>
    unfold attributesWithin
    infer_instance

instance (k : Nat) : Loosens (attributeListsWithin g k) (attributeListsWithin g' k) := by
  induction k with
  | zero =>
    unfold attributeListsWithin
    infer_instance
  | succ k ih =>
    unfold attributeListsWithin
    infer_instance

instance : Loosens (attributeLists g) (attributeLists g') := by
  unfold attributeLists
  infer_instance

instance : Loosens modifiers modifiers := by
  unfold modifiers
  infer_instance

instance : Loosens (parameter g) (parameter g') := by
  unfold parameter
  infer_instance

instance : Loosens (parameters g) (parameters g') := by
  unfold parameters
  infer_instance

/-- An expression that is kept by its span leaves the mark where it was set. -/
instance : Loosens (expressionBody e) (expressionBody e') := by
  unfold expressionBody
  apply Loosens.bind inferInstance
  intro start
  apply Loosens.bind inferInstance
  intro outcome
  cases outcome <;> infer_instance

/-- So does a value that is read again as skipped code. -/
instance : Loosens (fieldInitializer e) (fieldInitializer e') := by
  unfold fieldInitializer
  apply Loosens.bind inferInstance
  intro start
  apply Loosens.bind inferInstance
  intro outcome
  cases outcome <;> infer_instance

instance (type : String) (isConst : Bool) (k : Nat) (name : Token) :
    Loosens (fieldsWithin e type isConst k name) (fieldsWithin e' type isConst k name) := by
  induction k generalizing name with
  | zero =>
    unfold fieldsWithin
    infer_instance
  | succ k ih =>
    unfold fieldsWithin
    infer_instance

instance (type : String) (isConst : Bool) (first : Token) :
    Loosens (fields e type isConst first) (fields e' type isConst first) := by
  unfold fields
  infer_instance

instance (k : Nat) (name : Token) :
    Loosens (memberNameWithin k name) (memberNameWithin k name) := by
  induction k generalizing name with
  | zero =>
    unfold memberNameWithin
    infer_instance
  | succ k ih =>
    unfold memberNameWithin
    infer_instance

instance (start : Span) {skip : Parse Unit} [Loosens skip skip] :
    Loosens (skippedMember start skip) (skippedMember start skip) := by
  unfold skippedMember
  infer_instance

instance : Loosens baseType baseType := by
  unfold baseType
  infer_instance

end Declarations

section Files

variable {g g' : CodeGrammar} [CodeGrammar.Loosens g g']

instance (start : Span) (type : String) (name : Token) (mods : List String) :
    Loosens (methodOf g start type name mods) (methodOf g' start type name mods) := by
  unfold methodOf
  infer_instance

instance (start : Span) (mods : List String) :
    Loosens (typedMember g start mods) (typedMember g' start mods) := by
  unfold typedMember
  apply Loosens.bind inferInstance
  intro type
  apply Loosens.bind inferInstance
  intro t
  split
  · infer_instance
  · apply Loosens.bind inferInstance
    intro first
    apply Loosens.bind inferInstance
    intro name
    apply Loosens.bind inferInstance
    intro generic
    extract_lets tail tail'
    have htail : ∀ u, Loosens (tail u) (tail' u) := by
      intro u
      dsimp only [tail, tail']
      infer_instance
    infer_instance

instance loosens_memberOfClass {nested nested' : ClassParse}
    [∀ start attributes mods,
      Loosens (nested start attributes mods) (nested' start attributes mods)]
    (className : String) :
    Loosens (memberOfClass g nested className) (memberOfClass g' nested' className) := by
  unfold memberOfClass
  infer_instance

instance {member member' : Parse ClassParts} [Loosens member member'] (k : Nat) :
    Loosens (membersWithin member k) (membersWithin member' k) := by
  induction k with
  | zero =>
    unfold membersWithin
    infer_instance
  | succ k ih =>
    unfold membersWithin
    infer_instance

instance loosens_classOf {member member' : String → Parse ClassParts}
    [∀ name, Loosens (member name) (member' name)] (start : Span)
    (attributes : List AttributeUse) (mods : List String) :
    Loosens (classOf member start attributes mods) (classOf member' start attributes mods) := by
  unfold classOf
  apply Loosens.bind inferInstance
  intro keyword
  -- what follows the keyword, the type parameters and the parameters is the same with and
  -- without them
  extract_lets named named'
  have hnamed : ∀ u, Loosens (named u) (named' u) := by
    intro u
    dsimp -zeta only [named, named']
    apply Loosens.bind inferInstance
    intro name
    apply Loosens.bind inferInstance
    intro generic
    extract_lets based bracketed based' bracketed'
    have hbased : ∀ u, Loosens (based u) (based' u) := by
      intro u
      dsimp only [based, based']
      infer_instance
    have hbracketed : ∀ u, Loosens (bracketed u) (bracketed' u) := by
      intro u
      dsimp -zetaDelta only [bracketed, bracketed']
      infer_instance
    clear_value bracketed bracketed'
    infer_instance
  clear_value named named'
  infer_instance

theorem loosens_classWithin (depth : Nat) (start : Span) (attributes : List AttributeUse)
    (mods : List String) :
    Loosens (classWithin g depth start attributes mods)
      (classWithin g' depth start attributes mods) := by
  induction depth generalizing start attributes mods with
  | zero => exact inferInstanceAs (Loosens (expected .typeDeclaration) (expected .typeDeclaration))
  | succ depth ih =>
    have hmember := fun name => @loosens_memberOfClass g g' _ (classWithin g depth)
      (classWithin g' depth) ih name
    exact @loosens_classOf _ _ hmember start attributes mods

instance : Loosens (typeDeclaration g) (typeDeclaration g') := by
  have hclass := @loosens_classWithin g g' _
  unfold typeDeclaration
  infer_instance

instance (k : Nat) (braced : Bool) :
    Loosens (contentsWithin g k braced) (contentsWithin g' k braced) := by
  induction k generalizing braced with
  | zero =>
    unfold contentsWithin
    infer_instance
  | succ k ih =>
    unfold contentsWithin
    infer_instance

instance : Loosens (contents g) (contents g') := by
  unfold contents
  infer_instance

end Files

end Parse

/-! ## Below the limit -/

/-- The productions of code with those of `bottom` for what is nested `levels` deep. -/
def CodeGrammar.below (bottom : CodeGrammar) : Nat → CodeGrammar
  | 0 => bottom
  | levels + 1 =>
    let deeper := bottom.below levels
    { assignment := Parse.assignmentOf deeper.toGrammar
      unary := Parse.unaryOf deeper.toGrammar
      statement := Parse.statementOf deeper.assignment deeper.statement }

namespace CodeGrammar

theorem within_succ (levels : Nat) :
    within (levels + 1) =
      { assignment := Parse.assignmentOf (within levels).toGrammar
        unary := Parse.unaryOf (within levels).toGrammar
        statement := Parse.statementOf (within levels).assignment (within levels).statement } :=
  rfl

/-- A larger limit is a smaller one with what is still allowed below it. -/
theorem within_add (levels more : Nat) : within (levels + more) = (within more).below levels := by
  induction levels with
  | zero => rw [Nat.zero_add, below]
  | succ levels ih => rw [Nat.add_right_comm, within_succ, ih, below]

/-- Anything may stand below the limit of code that stays within it. -/
instance loosens_below (bottom : CodeGrammar) (levels : Nat) :
    Loosens (within levels) (bottom.below levels) := by
  induction levels with
  | zero =>
    exact { assignment := Parse.loosens_tooDeep
            unary := Parse.loosens_tooDeep
            statement := Parse.loosens_tooDeep }
  | succ levels ih =>
    rw [within_succ, below]
    exact { assignment := Parse.loosens_assignmentOf
            unary := Parse.loosens_unaryOf
            statement := Parse.loosens_statementOf }

end CodeGrammar

namespace SourceTree

/-- A file that is read by some productions is read alike by productions that allow more. -/
theorem parseBy_loosens {g g' : CodeGrammar} [CodeGrammar.Loosens g g'] {limit limit' : Nat}
    {file : SourceFile} {tree : SourceTree} (h : parseBy g limit file = .ok tree) :
    parseBy g' limit' file = .ok tree := by
  unfold parseBy at h ⊢
  cases hscan : scan file.text with
  | error e =>
    rw [hscan] at h
    cases h
  | ok scanned =>
    obtain ⟨tokens, stop⟩ := scanned
    rw [hscan] at h
    dsimp only at h ⊢
    have hsame : Step.Loosens
        (Parse.contents g (.start tokens (stop.span [])) { limit })
        (Parse.contents g' (.start tokens (stop.span [])) { limit := limit' }) :=
      Parse.Loosens.same _ rfl rfl
    revert h hsame
    generalize Parse.contents g _ _ = x, Parse.contents g' _ _ = y
    intro h hsame
    cases hsame with
    | exceeded hmark =>
      -- a marked outcome is refused, whether or not something was read
      cases x with
      | fail e n => cases h
      | ok contents c n =>
        obtain ⟨span, hspan⟩ := Option.isSome_iff_exists.1 hmark
        dsimp only at h
        rw [show n.exceeded = some span from hspan] at h
        cases h
    | ok contents c hn hn' =>
      dsimp only at h ⊢
      rw [show Nesting.exceeded _ = none from hn] at h
      rw [show Nesting.exceeded _ = none from hn']
      exact h
    | fail e hn hn' => cases h

/-- Reading a file comes down to the limit: it matters which productions stand below it. -/
def ReachesLimit (limit : Nat) (file : SourceFile) : Prop :=
  ∃ (bottom : CodeGrammar) (named : Nat),
    parseBy (bottom.below limit) named file ≠ parseWithin limit file

/-- The limit never changes what is read. A file that is read within it gives the same tree
    within every larger limit, and a file is refused when reading it comes down to the limit
    anywhere, also in an attempt that was given up and read in another way. -/
theorem parseWithin_limit (limit : Nat) (file : SourceFile) :
    (∀ tree, parseWithin limit file = .ok tree →
      ∀ larger, limit ≤ larger → parseWithin larger file = .ok tree) ∧
    (ReachesLimit limit file → ∃ e, parseWithin limit file = .error e) := by
  -- whatever stands below the limit, an accepted file is read to the same tree
  have hany : ∀ tree, parseWithin limit file = .ok tree → ∀ (bottom : CodeGrammar) (named : Nat),
      parseBy (bottom.below limit) named file = .ok tree := by
    intro tree htree bottom named
    rw [parseWithin] at htree
    exact parseBy_loosens htree
  refine ⟨?_, ?_⟩
  · intro tree htree larger hle
    obtain ⟨more, rfl⟩ := Nat.exists_eq_add_of_le hle
    rw [parseWithin, CodeGrammar.within_add]
    exact hany tree htree _ _
  · rintro ⟨bottom, named, hne⟩
    cases hparse : parseWithin limit file with
    | error e => exact ⟨e, rfl⟩
    | ok tree =>
      rw [hparse] at hne
      exact absurd (hany tree hparse bottom named) hne

/-- A value in parentheses takes four levels. With three, the value is skipped and the field
    kept without it, and the file is refused for that. -/
theorem parseWithin_limit_field :
    ∃ file : SourceFile, file.text = "class C { int x = (1); }" ∧
      (∃ tree, parseWithin 4 file = .ok tree ∧ parseWithin 128 file = .ok tree) ∧
      ReachesLimit 3 file ∧ ∃ e, parseWithin 3 file = .error e := by
  let file : SourceFile := { name := "a.cs", text := "class C { int x = (1); }" }
  have hfour : (parseWithin 4 file).isOk = true := by decide +kernel
  obtain ⟨tree, htree⟩ : ∃ tree, parseWithin 4 file = .ok tree := by
    cases hparse : parseWithin 4 file with
    | ok tree => exact ⟨tree, rfl⟩
    | error e =>
      rw [hparse] at hfour
      cases hfour
  -- productions that fail without a mark, so that nobody knows of the value that was given up
  let silent : CodeGrammar :=
    { assignment := Parse.expected .expression, unary := Parse.expected .expression
      statement := Parse.expected .expression }
  have hreaches : ReachesLimit 3 file := by
    refine ⟨silent, 3, fun heq => ?_⟩
    have hsilent : (parseBy (silent.below 3) 3 file).isOk = true := by decide +kernel
    have hthree : (parseWithin 3 file).isOk = false := by decide +kernel
    rw [heq, hthree] at hsilent
    cases hsilent
  exact ⟨file, rfl, ⟨tree, htree, (parseWithin_limit 4 file).1 tree htree 128 (by decide)⟩,
    hreaches, (parseWithin_limit 3 file).2 hreaches⟩

end SourceTree

end GatewayPolicy
