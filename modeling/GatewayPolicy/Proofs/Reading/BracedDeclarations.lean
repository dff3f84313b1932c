import GatewayPolicy.Proofs.Reading.BracedExpressions
import GatewayPolicy.Proofs.Reading.Loops

/-! # Statements and declarations are level with braces

  Blocks, classes and namespaces open braces and close them. All other productions of
  statements and declarations have from their parts that they are level, and a file is read
  up to its end.

  - `CodeGrammar.Level` is what declarations need to know about the code in them.
  - `Parse.contentsWithin_closes` is the result for a file.
-/

namespace GatewayPolicy

-- a production of many steps takes an instance for each of them
set_option synthInstance.maxSize 2048

namespace Parse

/-! ## Statements -/

section Statements

variable {e : Parse Expr} {q : Parse Stmt} [Level e] [Level q]

instance : Level (recovering q) := by
  unfold recovering
  apply Level.bind inferInstance
  intro start
  apply Level.bind inferInstance
  intro outcome
  cases outcome <;> infer_instance

instance (opening : Span) (k : Nat) : Level (statementsWithin opening q k) := by
  induction k with
  | zero =>
    unfold statementsWithin
    infer_instance
  | succ k ih =>
    unfold statementsWithin
    infer_instance

instance : Level (block q) where
  level h := by
    obtain ⟨opening, _, _, hopening, h⟩ := bind_eq_ok h
    obtain ⟨rfl, rfl, hopen⟩ := expect_eq_ok hopening
    obtain ⟨ss, c', _, hstatements, h⟩ := bind_eq_ok h
    obtain ⟨closing, _, _, hclosing, h⟩ := bind_eq_ok h
    cases hclosing
    cases h
    -- the statements stop in front of the brace that the block takes
    have hclose := closeBrace_of_statementsWithin hstatements
    exact Cursor.closes_opening hopen
      ((Level.level hstatements).trans (Cursor.closes_closing hclose))

instance (which : OtherStatement) (start : Span) : Level (otherFrom which start) := by
  unfold otherFrom
  infer_instance

instance : Level parenGroup := by
  unfold parenGroup
  infer_instance

instance (k : Nat) : Level (catchesWithin q k) := by
  induction k with
  | zero =>
    unfold catchesWithin
    infer_instance
  | succ k ih =>
    unfold catchesWithin
    infer_instance

instance (k : Nat) (name : Token) : Level (memberNameWithin k name) := by
  induction k generalizing name with
  | zero =>
    unfold memberNameWithin
    infer_instance
  | succ k ih =>
    unfold memberNameWithin
    infer_instance

/-- A keyword is no brace. -/
theorem levelAt_keyword {c : Cursor} (h : c.peek.isIdentifier = true) {body : Span → Parse Stmt}
    [hbody : ∀ start, Level (body start)] : LevelAt c (do
      let start ← here
      let _ ← advance
      body start) :=
  levelAt_look (fun _ => rfl)
    (levelAt_advance (Token.not_isBrace_of_isIdentifier h) ((hbody _).at _))

/-- Type parameters belong to a loose stretch that starts in front of the name they follow, so
    that no comparison is taken for them. -/
theorem closes_typeParameters {α : Type} {tail : Parse α} [Level tail] {start c d : Cursor}
    {n m : Nesting} {v : α} (hhead : start.Closes 0 c)
    (hloose : ∀ c' n', skipAngles c n = .ok () c' n' → Loose start.rest c'.rest)
    (h : (do
      if ← at? .less then skipAngles
      tail) c n = .ok v d m) : start.Closes 0 d := by
  obtain ⟨_, _, _, hat, h⟩ := bind_eq_ok h
  cases hat
  split at h
  · obtain ⟨_, c', n', hskip, h⟩ := bind_eq_ok h
    exact .loose (hloose c' n' hskip) (Level.level (p := tail) h)
  · exact hhead.trans (Level.level (p := tail) h)

/-- A name that no dot follows is the whole name. -/
theorem run_memberName {c : Cursor} (h : c.peek.isSymbol .dot = false) (first : Token)
    (n : Nesting) : bounded (memberNameWithin · first) c n = .ok first c n := by
  have heat : eat .dot c n = .ok false c n := by
    unfold eat
    rw [h]
    rfl
  show memberNameWithin c.rest.length first c n = _
  cases c.rest.length with
  | zero => rfl
  | succ k =>
    show Parse.bind (eat .dot) _ c n = _
    unfold Parse.bind
    rw [heat]
    rfl

instance : Level (localDeclaration e) where
  level {c d n m s} h := by
    obtain ⟨_, _, _, hhere, h⟩ := bind_eq_ok h
    cases hhere
    obtain ⟨const, c₁, n₁, hconst, h⟩ := bind_eq_ok h
    refine (Level.level hconst).trans ?_
    obtain ⟨await, _, _, hawait, h⟩ := bind_eq_ok h
    cases hawait
    split at h
    · obtain ⟨_, _, _, hexpected, -⟩ := bind_eq_ok h
      cases hexpected
    obtain ⟨type, c₂, n₂, htype, h⟩ := bind_eq_ok h
    obtain ⟨name, c₃, n₃, hname, h⟩ := bind_eq_ok h
    obtain ⟨_, _, _, hany, h⟩ := bind_eq_ok h
    cases hany
    split at h
    · rename_i hfunction
      -- a local function has a plain name, which is a member's name without dots
      have hdot : c₃.peek.isSymbol .dot = false := by
        obtain ⟨s, hs, hsymbol⟩ := List.any_eq_true.1 hfunction
        unfold Token.isSymbol at hsymbol ⊢
        rw [of_decide_eq_true hsymbol]
        clear hsymbol
        revert s
        decide
      exact closes_typeParameters ((Level.level htype).trans (Level.level hname))
        (fun _ _ hskip => .ofMember htype hname (run_memberName hdot name n₃) hskip) h
    · exact ((Level.level htype).trans (Level.level hname)).trans (Level.level h)

instance : Level (expressionStatement e) := by
  unfold expressionStatement
  infer_instance

instance : Level (plainStatement e) := by
  unfold plainStatement
  apply Level.bind inferInstance
  intro declaration
  cases declaration <;> infer_instance

theorem levelAt_wordStatement {c : Cursor} (h : c.peek.isIdentifier = true) (t next : Token) :
    LevelAt c (wordStatement e q t next) := by
  unfold wordStatement
  split
  -- one word begins a statement only in front of certain tokens, and other words begin none
  case h_7 =>
    split
    · exact levelAt_keyword h
    · exact Level.at inferInstance c
  case h_16 => exact Level.at inferInstance c
  all_goals exact levelAt_keyword h

instance level_statementOf : Level (statementOf e q) := by
  refine .of_at fun c => ?_
  unfold statementOf
  refine levelAt_look (fun _ => rfl) ?_
  split
  · exact Level.at inferInstance c
  split
  · rename_i hsemicolon
    exact levelAt_advance (Token.isBrace_of_isSymbol hsemicolon) (Level.at inferInstance _)
  split
  · rename_i hword
    exact levelAt_look (fun _ => rfl) (levelAt_wordStatement hword _ _)
  · exact Level.at inferInstance c

end Statements

instance level_statementWithin (levels : Nat) : Level (statementWithin levels) := by
  induction levels with
  | zero => exact inferInstanceAs (Level tooDeep)
  | succ levels ih =>
    exact @level_statementOf (Grammar.within levels).assignment (statementWithin levels)
      inferInstance ih

/-! ## Attributes and fields -/

section Fields

variable {g : Grammar} [Grammar.Level g] {e : Parse Expr} [Level e]

instance (k : Nat) : Level (qualifiedTailWithin k) := by
  induction k with
  | zero =>
    unfold qualifiedTailWithin
    infer_instance
  | succ k ih =>
    refine .of_at fun c => ?_
    unfold qualifiedTailWithin
    refine levelAt_look (fun _ => rfl) ?_
    split
    · rename_i hdot
      exact levelAt_advance (Token.not_isBrace_of_isAnySymbol hdot (by decide))
        (Level.at inferInstance _)
    · exact Level.at inferInstance c

instance : Level qualifiedName := by
  unfold qualifiedName
  infer_instance

instance : Level (attributeUse g) := by
  unfold attributeUse
  infer_instance

instance (k : Nat) : Level (attributesWithin g k) := by
  induction k with
  | zero =>
    unfold attributesWithin
    infer_instance
  | succ k ih =>
    unfold attributesWithin
    infer_instance

instance (k : Nat) : Level (attributeListsWithin g k) := by
  induction k with
  | zero =>
    unfold attributeListsWithin
    infer_instance
  | succ k ih =>
    unfold attributeListsWithin
    refine Level.bind inferInstance fun bracket => ?_
    split
    · refine .of_at fun c => levelAt_look (fun _ => rfl) (levelAt_look (fun _ => rfl) ?_)
      split
      · rename_i htarget
        obtain ⟨hname, hcolon⟩ := Bool.and_eq_true_iff.1 htarget
        rw [← c.peek_next] at hcolon
        exact levelAt_advance (Token.not_isBrace_of_isIdentifier hname)
          (levelAt_advance (Token.isBrace_of_isSymbol hcolon) (Level.at inferInstance _))
      · exact Level.at inferInstance c
    · infer_instance

instance : Level (attributeLists g) := by
  unfold attributeLists
  infer_instance

instance : Level modifiers := by
  unfold modifiers
  infer_instance

instance : Level (expressionBody e) where
  level h := by
    rcases expressionBody_eq_ok h with ⟨hread, -⟩ | ⟨_, hskip⟩
    · exact Level.level hread
    · exact Level.level hskip

instance : Level (fieldInitializer e) where
  level h := by
    rcases fieldInitializer_eq_ok h with ⟨_, -, hread⟩ | ⟨-, _, hskip⟩
    · exact Level.level hread
    · exact ((level_skipTo_opening (by decide)).bind fun _ => inferInstance).level hskip

instance (type : String) (isConst : Bool) (k : Nat) (name : Token) :
    Level (fieldsWithin e type isConst k name) := by
  induction k generalizing name with
  | zero =>
    unfold fieldsWithin
    infer_instance
  | succ k ih =>
    unfold fieldsWithin
    infer_instance

instance (type : String) (isConst : Bool) (first : Token) :
    Level (fields e type isConst first) := by
  unfold fields
  infer_instance

instance (start : Span) {skip : Parse Unit} [Level skip] : Level (skippedMember start skip) := by
  unfold skippedMember
  infer_instance

instance : Level baseType := by
  unfold baseType
  infer_instance

end Fields

end Parse

/-! ## Classes -/

/-- Productions of code that are level with braces, parameters of methods included. -/
class CodeGrammar.Level (g : CodeGrammar) : Prop where
  grammar : g.toGrammar.Level
  statement : Parse.Level g.statement
  parameters : Parse.Level (Parse.parameters g.toGrammar)

attribute [instance] CodeGrammar.Level.grammar CodeGrammar.Level.statement
  CodeGrammar.Level.parameters

/-- The parameters of a method are loose. -/
instance CodeGrammar.level_within (limit : Nat) : CodeGrammar.Level (CodeGrammar.within limit) where
  grammar := Grammar.level_within limit
  statement := Parse.level_statementWithin limit
  parameters := ⟨fun h => .loose (.parameters h) (.done _)⟩

namespace Parse

section Classes

variable {g : CodeGrammar} [g.Level]

instance (start : Span) (returnType : String) (name : Token) (mods : List String) :
    Level (methodOf g start returnType name mods) := by
  unfold methodOf
  infer_instance

instance (start : Span) (mods : List String) : Level (typedMember g start mods) where
  level {c d n m v} h := by
    obtain ⟨type, c₁, n₁, htype, h⟩ := bind_eq_ok h
    obtain ⟨_, _, _, hpeek, h⟩ := bind_eq_ok h
    cases hpeek
    split at h
    · exact (Level.level htype).trans (Level.level h)
    · obtain ⟨first, c₂, n₂, hfirst, h⟩ := bind_eq_ok h
      obtain ⟨name, c₃, n₃, hname, h⟩ := bind_eq_ok h
      exact closes_typeParameters
        (((Level.level htype).trans (Level.level hfirst)).trans (Level.level hname))
        (fun _ _ hskip => .ofMember htype hfirst hname hskip) h

theorem expectName_eq_ok {c d : Cursor} {n m : Nesting} {t : Token}
    (h : expectName c n = .ok t d m) : d = c.next ∧ c.peek.isName = true := by
  unfold expectName at h
  split at h
  · cases h
    exact ⟨rfl, ‹_›⟩
  · cases h

/-- A parse that is level from the keyword of a class on. -/
def LevelAtKeyword (p : Parse (List ClassDecl)) : Prop :=
  ∀ c, c.peek.isAnyWord ["class", "struct", "record"] = true → LevelAt c p

theorem level_memberOfClass {nested : ClassParse}
    (hnested : ∀ start attributes mods, LevelAtKeyword (nested start attributes mods))
    (className : String) : Level (memberOfClass g nested className) := by
  unfold memberOfClass
  refine Level.bind inferInstance fun start => Level.bind inferInstance fun attributes => ?_
  refine Level.bind inferInstance fun mods => .of_at fun c => ?_
  refine levelAt_look (fun _ => rfl) (levelAt_look (fun _ => rfl) ?_)
  split
  · rename_i hclass
    -- a record is only taken for a class in front of its name
    have hkeyword : c.peek.isAnyWord ["class", "struct", "record"] = true := by
      simp only [Token.isAnyWord, List.any_cons, List.any_nil, Bool.or_eq_true,
        Bool.and_eq_true] at hclass ⊢
      tauto
    exact (hnested start attributes mods c hkeyword).bind fun _ d => Level.at inferInstance d
  split
  · exact Level.at inferInstance c
  split
  · exact Level.at inferInstance c
  split
  · rename_i hconstructor
    have hname := (Bool.and_eq_true_iff.1 hconstructor).1
    exact levelAt_advance (Token.not_isBrace_of_isWord hname) (Level.at inferInstance _)
  · exact Level.at inferInstance c

instance {member : Parse ClassParts} [Level member] (k : Nat) :
    Closing (membersWithin member k) := by
  induction k with
  | zero =>
    unfold membersWithin
    infer_instance
  | succ k ih =>
    unfold membersWithin
    infer_instance

theorem levelAtKeyword_classOf {member : String → Parse ClassParts}
    (hmember : ∀ name, Level (member name)) (start : Span) (attributes : List AttributeUse)
    (mods : List String) : LevelAtKeyword (classOf member start attributes mods) := by
  intro c hkeyword d n m v h
  have hnext := Cursor.closes_next (Token.not_isBrace_of_isAnyWord hkeyword)
  obtain ⟨keyword, _, _, hadvance, h⟩ := bind_eq_ok h
  cases hadvance
  extract_lets head at h
  -- a keyword stands in front of the name, which matters where type parameters follow
  have hhead : ∀ c' : Cursor, c'.peek.isAnyWord ["class", "struct", "record"] = true → ∀ n',
      head () c'.next n' = .ok v d m → c'.Closes 0 d := by
    intro c' hkeyword n' h
    obtain ⟨name, c₁, n₁, hname, h⟩ := bind_eq_ok h
    have hnext := Cursor.closes_next (Token.not_isBrace_of_isAnyWord hkeyword)
    refine closes_typeParameters (hnext.trans (Level.level hname)) ?_ h
    obtain ⟨rfl, hfree⟩ := expectName_eq_ok hname
    exact fun _ _ hskip => .ofClass hkeyword hfree hskip
  split at h
  · -- a record may have a second keyword
    obtain ⟨isClass, c₁, n₁, hclass, h⟩ := bind_eq_ok h
    unfold eatWord at hclass
    split at hclass
    · rename_i hword
      cases hclass
      exact hnext.trans (hhead c.next (List.any_eq_true.2 ⟨_, by decide, hword⟩) _ h)
    cases hclass
    obtain ⟨isStruct, c₂, n₂, hstruct, h⟩ := bind_eq_ok h
    unfold eatWord at hstruct
    split at hstruct
    · rename_i hword
      cases hstruct
      exact hnext.trans (hhead c.next (List.any_eq_true.2 ⟨_, by decide, hword⟩) _ h)
    · cases hstruct
      exact hhead c hkeyword _ h
  · exact hhead c hkeyword n h

theorem levelAtKeyword_classWithin (depth : Nat) (start : Span) (attributes : List AttributeUse)
    (mods : List String) : LevelAtKeyword (classWithin g depth start attributes mods) := by
  induction depth generalizing start attributes mods with
  | zero =>
    intro c _
    exact Level.at (inferInstanceAs (Level (expected .typeDeclaration))) c
  | succ depth ih => exact levelAtKeyword_classOf (level_memberOfClass ih) start attributes mods

/-! ## Files -/

instance : Level (typeDeclaration g) := by
  unfold typeDeclaration
  refine Level.bind inferInstance fun start => Level.bind inferInstance fun attributes => ?_
  refine Level.bind inferInstance fun mods => .of_at fun c => ?_
  refine levelAt_look (fun _ => rfl) ?_
  split
  · rename_i hkeyword
    intro d n m v h
    exact levelAtKeyword_classWithin _ start attributes mods c hkeyword _ _ _ _ h
  · exact Level.at inferInstance c

/-- Declarations that stand in braces close a brace, and others none. -/
theorem contentsWithin_closes {k : Nat} {braced : Bool} {c d : Cursor} {n m : Nesting}
    {contents : Contents} (h : contentsWithin g k braced c n = .ok contents d m) :
    c.Closes braced.toNat d := by
  induction k generalizing braced c d n m contents with
  | zero =>
    unfold contentsWithin at h
    cases braced with
    | true =>
      exact Closing.closes (p := expect .closeBrace >>= fun _ => Pure.pure ({} : Contents)) h
    | false =>
      cases h
      exact .refl _
  | succ k ih =>
    unfold contentsWithin at h
    obtain ⟨_, _, _, hpeek, h⟩ := bind_eq_ok h
    cases hpeek
    by_cases heof : c.peek.isEof = true
    · -- at the end of the file nothing may be open
      rw [if_pos heof] at h
      split at h
      · cases h
      · rename_i hbraced
        cases h
        rw [Bool.eq_false_iff.2 hbraced]
        exact .refl _
    rw [if_neg heof] at h
    split at h
    · rename_i hend
      obtain ⟨hbraced, hclose⟩ := Bool.and_eq_true_iff.1 hend
      obtain ⟨_, _, _, hadvance, h⟩ := bind_eq_ok h
      cases hadvance
      cases h
      rw [hbraced]
      exact Cursor.closes_closing hclose
    obtain ⟨_, _, _, hahead, h⟩ := bind_eq_ok h
    cases hahead
    split at h
    · obtain ⟨_, c₁, n₁, hskip, h⟩ := bind_eq_ok h
      exact (Level.level hskip).trans (ih h)
    obtain ⟨isNamespace, c₁, n₁, hword, h⟩ := bind_eq_ok h
    refine (Level.level hword).trans ?_
    split at h
    · obtain ⟨name, c₂, n₂, hname, h⟩ := bind_eq_ok h
      refine (Level.level hname).trans ?_
      obtain ⟨flat, c₃, n₃, hflat, h⟩ := bind_eq_ok h
      refine (Level.level hflat).trans ?_
      split at h
      · obtain ⟨behind, c₄, n₄, hbehind, h⟩ := bind_eq_ok h
        cases h
        exact ih hbehind
      · -- the namespace has braces, which its declarations close
        obtain ⟨opening, c₄, n₄, hopening, h⟩ := bind_eq_ok h
        obtain ⟨-, rfl, hopen⟩ := expect_eq_ok hopening
        obtain ⟨inside, c₅, n₅, hinside, h⟩ := bind_eq_ok h
        obtain ⟨behind, c₆, n₆, hbehind, h⟩ := bind_eq_ok h
        cases h
        have hclosed := Braced.trans (ih hinside) (ih hbehind)
        rw [Bool.toNat_true, Nat.add_comm] at hclosed
        exact Cursor.closes_opening hopen hclosed
    · obtain ⟨classes, c₂, n₂, hclasses, h⟩ := bind_eq_ok h
      obtain ⟨behind, c₃, n₃, hbehind, h⟩ := bind_eq_ok h
      cases h
      exact (Level.level hclasses).trans (ih hbehind)

end Classes

end Parse

end GatewayPolicy
