import GatewayPolicy.Proofs.Lexical.Quotes
import GatewayPolicy.Proofs.Reading.Loops

/-! # Reading is total and stays inside the file

  Reading takes a token in every turn of every loop until it ends, and it looks at nothing
  outside the file on its way.

  - `Parse.Production` lists the parses that a file is read with, and `Cursor.Visited` are
    the cursors that they come to. `Cursor.Visited.standsAt` finds each of them in front of
    a token of the file.
  - `Parse.LoopsRepeat` collects the loops and recursions of reading.
  - `ReadsInside` collects what is looked at in a file.
-/

namespace GatewayPolicy

-- a production of many steps takes an instance for each of them
set_option synthInstance.maxSize 1024

namespace Parse

/-! ## Statements take tokens -/

section Statements

variable {e : Parse Expr} {q : Parse Stmt} [Forward e] [Forward q]

instance (which : OtherStatement) : Forward (jump which) := by
  unfold jump
  infer_instance

instance (which : OtherStatement) : Forward (guarded which q) := by
  unfold guarded
  infer_instance

instance : Forward (usingStatement q) := by
  unfold usingStatement
  infer_instance

instance : Forward (doStatement q) := by
  unfold doStatement
  infer_instance

instance : Forward switchStatement := by
  unfold switchStatement
  infer_instance

instance : Forward (tryStatement q) := by
  unfold tryStatement
  infer_instance

instance : Forward (ifStatement e q) := by
  unfold ifStatement
  infer_instance

instance : Forward (localDeclaration e) where
  reaches h := (localDeclaration_readBetween h).passes.reaches

instance : Forward (expressionStatement e) where
  reaches h := (expressionStatement_readBetween h).passes.reaches

instance : Forward (plainStatement e) where
  reaches h := (plainStatement_readBetween h).passes.reaches

instance (t next : Token) : Forward (wordStatement e q t next) := by
  unfold wordStatement
  split <;> infer_instance

end Statements

/-! ## Productions -/

instance (levels : Nat) : Forward (CodeGrammar.within levels).statement :=
  Delimits.forward (delimits_statementWithin levels)

instance (levels : Nat) : (CodeGrammar.within levels).toGrammar.Forward :=
  Grammar.forward_within levels

/-- The parses that a file is read with, where code may be nested so many levels deep. -/
inductive Production (levels : Nat) : {α : Type} → Parse α → Prop where
  -- tokens, and combinations of other productions
  | look {α : Type} (f : Cursor → Nesting → α) : Production levels fun c n => .ok (f c n) c n
  | advance : Production levels advance
  | eat (s : Symbol) : Production levels (eat s)
  | eatWord (w : String) : Production levels (eatWord w)
  | expect (s : Symbol) : Production levels (expect s)
  | expectWord (w : String) : Production levels (expectWord w)
  | expectName : Production levels expectName
  | require (s : Symbol) : Production levels (require s)
  | takeWhile (p : Token → Bool) : Production levels (takeWhile p)
  | observe {α : Type} {p : Parse α} : Production levels p → Production levels (observe p)
  | attempt {α : Type} {p : Parse α} : Production levels p → Production levels (attempt p)
  | commaList {α : Type} {p : Parse α} : Production levels p → Production levels (commaList p)
  | itemsUntil {α : Type} {p : Parse α} (close : Symbol) :
      Production levels p → Production levels (itemsUntil close p)
  -- skipping
  | skipGroup : Production levels skipGroup
  | skipTo (group stop : Token → Bool) : Production levels (skipTo group stop)
  | skipUntilSemicolon : Production levels skipUntilSemicolon
  | skipPastSemicolon : Production levels skipPastSemicolon
  | skipStatement : Production levels skipStatement
  | skipMember : Production levels skipMember
  | skipTypeBody : Production levels skipTypeBody
  | skipConstraints : Production levels skipConstraints
  | skipAngles : Production levels skipAngles
  -- types
  | typeName : Production levels typeName
  | typeArguments : Production levels typeArguments
  | callTypeArguments : Production levels callTypeArguments
  -- expressions
  | argument (inAttribute : Bool) : Production levels (argument (.within levels) inAttribute)
  | argumentList : Production levels (argumentList (.within levels))
  | callOf (target : Expr) (types : List String) :
      Production levels (callOf (.within levels) target types)
  | genericCall (target : Expr) : Production levels (genericCall (.within levels) target)
  | fieldValue : Production levels (fieldValue (initializerValue (.within levels)))
  | initializerOf : Production levels (initializerOf (initializerValue (.within levels)))
  | initializerValue : Production levels (initializerValue (.within levels))
  | elements (close : Symbol) : Production levels (elements (.within levels) close)
  | newArray (start : Span) (type : Option String) :
      Production levels (newArray (.within levels) start type)
  | newObject (start : Span) (type : Option String) :
      Production levels (newObject (.within levels) start type)
  | newExpression : Production levels (newExpression (.within levels))
  | literalOf (kind : LiteralKind) (value : String) : Production levels (literalOf kind value)
  | wordExpression (t : Token) : Production levels (wordExpression (.within levels) t)
  | primary : Production levels (primary (.within levels))
  | memberOf (target : Expr) (conditional : Bool) : Production levels (memberOf target conditional)
  | indexOf (target : Expr) : Production levels (indexOf (.within levels) target)
  | trailers (e : Expr) : Production levels (trailers (.within levels) e)
  | castExpression : Production levels (castExpression (.within levels))
  | unary : Production levels (Grammar.within levels).unary
  | typePattern : Production levels (typePattern (.within levels))
  | operands (least : Nat) : Production levels (operands (.within levels) least)
  | conditional : Production levels (conditional (.within levels))
  | lambdaParameters : Production levels lambdaParameters?
  | lambda : Production levels (lambda? (.within levels))
  | assignment : Production levels (Grammar.within levels).assignment
  -- statements
  | recovering : Production levels (recovering (CodeGrammar.within levels).statement)
  | block : Production levels (block (CodeGrammar.within levels).statement)
  | otherFrom (which : OtherStatement) (start : Span) : Production levels (otherFrom which start)
  | jump (which : OtherStatement) : Production levels (jump which)
  | parenGroup : Production levels parenGroup
  | guarded (which : OtherStatement) :
      Production levels (guarded which (CodeGrammar.within levels).statement)
  | usingStatement : Production levels (usingStatement (CodeGrammar.within levels).statement)
  | doStatement : Production levels (doStatement (CodeGrammar.within levels).statement)
  | switchStatement : Production levels switchStatement
  | tryStatement : Production levels (tryStatement (CodeGrammar.within levels).statement)
  | ifStatement : Production levels
      (ifStatement (Grammar.within levels).assignment (CodeGrammar.within levels).statement)
  | localFunction (start : Span) : Production levels (localFunction start)
  | localDeclaration : Production levels (localDeclaration (Grammar.within levels).assignment)
  | expressionStatement :
      Production levels (expressionStatement (Grammar.within levels).assignment)
  | plainStatement : Production levels (plainStatement (Grammar.within levels).assignment)
  | wordStatement (t next : Token) : Production levels (wordStatement
      (Grammar.within levels).assignment (CodeGrammar.within levels).statement t next)
  | statement : Production levels (CodeGrammar.within levels).statement
  -- declarations
  | qualifiedName : Production levels qualifiedName
  | attributeUse : Production levels (attributeUse (.within levels))
  | attributeLists : Production levels (attributeLists (.within levels))
  | modifiers : Production levels modifiers
  | parameter : Production levels (parameter (.within levels))
  | parameters : Production levels (parameters (.within levels))
  | expressionBody : Production levels (expressionBody (Grammar.within levels).assignment)
  | methodOf (start : Span) (returnType : String) (name : Token) (mods : List String) :
      Production levels (methodOf (.within levels) start returnType name mods)
  | fieldInitializer : Production levels (fieldInitializer (Grammar.within levels).assignment)
  | fields (type : String) (isConst : Bool) (first : Token) :
      Production levels (fields (Grammar.within levels).assignment type isConst first)
  | typedMember (start : Span) (mods : List String) :
      Production levels (typedMember (.within levels) start mods)
  | memberOfClass (depth : Nat) (className : String) : Production levels
      (memberOfClass (.within levels) (classWithin (.within levels) depth) className)
  | baseType : Production levels baseType
  | classWithin (depth : Nat) (start : Span) (attributes : List AttributeUse)
      (mods : List String) :
      Production levels (classWithin (.within levels) depth start attributes mods)
  | typeDeclaration : Production levels (typeDeclaration (.within levels))
  | contents : Production levels (contents (.within levels))

theorem Production.forward {levels : Nat} {α : Type} {p : Parse α} (h : Production levels p) :
    Forward p := by
  induction h with
  | look f => exact forward_of_look f
  | _ => infer_instance

end Parse

/-! ## Cursors in a file -/

/-- The cursors that reading comes to: where it starts, and wherever a production stops that
    is read from one of them. Productions may follow in any order, so these are the cursors
    of every run, of runs that fail and of those that are taken back too. -/
inductive Cursor.Visited (first : Cursor) : Cursor → Prop where
  | start : Visited first first
  | read {levels : Nat} {α : Type} {p : Parse α} {c d : Cursor} {n m : Nesting} {v : α}
      (before : Visited first c) (production : Parse.Production levels p)
      (result : p c n = .ok v d m) : Visited first d

/-- A cursor stands in front of the token at an index of a file, whose end is its last token;
    the token taken last is the one before, or at first the same. -/
structure Cursor.StandsAt (tokens : List Token) (stop : Span) (i : Nat) (c : Cursor) : Prop where
  inside : i ≤ tokens.length
  rest : c.rest = tokens.drop i
  stops : c.stop = stop
  last : ∃ t, (tokens ++ [.eof stop])[i - 1]? = some t ∧ c.last = t.span

namespace Cursor

variable {tokens : List Token} {stop : Span} {i : Nat} {c d : Cursor}

theorem standsAt_start (tokens : List Token) (stop : Span) :
    (Cursor.start tokens stop).StandsAt tokens stop 0 where
  inside := Nat.zero_le _
  rest := rfl
  stops := rfl
  last := by
    cases tokens with
    | nil => exact ⟨.eof stop, rfl, rfl⟩
    | cons t ts => exact ⟨t, rfl, rfl⟩

/-- Taking tokens moves a cursor on by as many. -/
theorem StandsAt.takes (h : c.StandsAt tokens stop i) {taken : List Token}
    (htakes : c.Takes taken d) : d.StandsAt tokens stop (i + taken.length) := by
  have hdrop : tokens.drop i = taken ++ d.rest := by rw [← h.rest, htakes.rest]
  have hlength : (tokens.drop i).length = taken.length + d.rest.length := by
    rw [hdrop, List.length_append]
  rw [List.length_drop] at hlength
  have hinside := h.inside
  refine ⟨by omega, ?_, htakes.stop.trans h.stops, ?_⟩
  · rw [← List.drop_drop, hdrop, List.drop_left]
  · rcases List.eq_nil_or_concat' taken with rfl | ⟨front, t, rfl⟩
    · rw [htakes.last]
      exact h.last
    · -- the token taken last stands right before the cursor
      refine ⟨t, ?_, by rw [htakes.last, List.getLast?_concat]; rfl⟩
      rw [List.length_append, List.length_singleton] at hlength ⊢
      have hindex : i + (front.length + 1) - 1 = i + front.length := by omega
      rw [hindex, List.getElem?_append_left (by omega), ← List.getElem?_drop, hdrop,
        List.append_assoc, List.getElem?_append_right (Nat.le_refl _), Nat.sub_self]
      rfl

/-- Looking ahead never looks behind the end of the file. -/
theorem StandsAt.peekAt (h : c.StandsAt tokens stop i) (k : Nat) :
    (tokens ++ [.eof stop])[min (i + k) tokens.length]? = some (c.peekAt k) := by
  rw [Cursor.peekAt, h.rest, h.stops, List.getElem?_drop]
  rcases Nat.lt_or_ge (i + k) tokens.length with hlt | hge
  · rw [Nat.min_eq_left hlt.le, List.getElem?_append_left hlt, List.getElem?_eq_getElem hlt]
    rfl
  · rw [Nat.min_eq_right hge, List.getElem?_append_right (Nat.le_refl _), Nat.sub_self,
      List.getElem?_eq_none hge]
    rfl

/-- Wherever reading comes to, it stands at a token of the file or at its end. -/
theorem Visited.standsAt (h : (Cursor.start tokens stop).Visited c) :
    ∃ i, c.StandsAt tokens stop i := by
  induction h with
  | start => exact ⟨0, standsAt_start tokens stop⟩
  | read _ production result ih =>
    obtain ⟨i, hi⟩ := ih
    have hforward := production.forward
    obtain ⟨taken, htaken⟩ := Parse.Forward.reaches result
    exact ⟨i + taken.length, hi.takes htaken⟩

end Cursor

namespace Parse

/-! ## All loops -/

/-- Every loop makes its turns until one of them stops it, and takes a token in each turn
    after which it goes on. Every recursion that is not bounded by how deep code may nest
    goes as deep as it has to. -/
structure LoopsRepeat : Prop where
  takeWhile (p : Token → Bool) : Repeats (takeWhileTurn p) fun _ => takeWhile p
  commaList {levels : Nat} {α : Type} {item : Parse α} : Production levels item →
    Repeats (commaListTurn item) fun _ => commaList item
  items {levels : Nat} {α : Type} {item : Parse α} (close : Symbol) : Production levels item →
    Repeats (itemsTurn close item) fun _ => bounded (itemsWithin close item)
  -- skipping
  group (opening : Token) : Repeats (groupTurn opening) (groupRest opening)
  skipGroup : skipGroup = (do
    let opening ← peek
    match opening.closing? with
    | none => throw { fault := .noBracket opening.text, span := opening.span }
    | some close =>
      let _ ← advance
      groupRest opening [close]
      return opening.span.cover (← last))
  skipTo (group stop : Token → Bool) : Repeats (skipToTurn group stop) fun _ => skipTo group stop
  angles (opening : Token) : Repeats (anglesTurn opening) (anglesRest opening)
  skipAngles : skipAngles = (do
    let opening ← expect .less
    anglesRest opening 1)
  -- types
  typePath : Repeats (typePathTurn typeName) fun _ => bounded (typePathWithin typeName)
  typeEnding : Repeats typeEndingTurn fun _ => bounded typeEndingWithin
  types : Solves (fun (type : Unit → Parse String) _ => typeOf (type ())) fun _ => typeName
  -- expressions
  trailers (levels : Nat) : Repeats (trailersTurn (.within levels)) (trailers (.within levels))
  operands (levels : Nat) : Repeats (operandsTurn (.within levels))
    fun s => bounded (operandsWithin (.within levels) · s.1 s.2)
  lambdaNames : Repeats lambdaNamesTurn lambdaNamesRest
  lambdaParameters {look : List Token → Bool} :
    (∀ ts follows, arrowFollows? 0 ts = some follows → look ts = follows) →
      lambdaParametersBy look = lambdaParameters?
  initializers (levels : Nat) :
    Solves (fun (value : Unit → Parse Expr) _ => initializerValueOf (.within levels) (value ()))
      fun _ => initializerValue (.within levels)
  -- statements
  statements (levels : Nat) (opening : Span) :
    Repeats (statementsTurn opening (CodeGrammar.within levels).statement)
      fun _ => bounded (statementsWithin opening (CodeGrammar.within levels).statement)
  catches (levels : Nat) : Repeats (catchesTurn (CodeGrammar.within levels).statement)
    fun _ => bounded (catchesWithin (CodeGrammar.within levels).statement)
  -- declarations
  qualifiedTail : Repeats qualifiedTailTurn fun _ => bounded qualifiedTailWithin
  attributes (levels : Nat) : Repeats (attributesTurn (.within levels))
    fun _ => bounded (attributesWithin (.within levels))
  attributeLists (levels : Nat) : Repeats (attributeListsTurn (.within levels))
    fun _ => attributeLists (.within levels)
  fields (levels : Nat) (type : String) (isConst : Bool) :
    Repeats (fieldsTurn (Grammar.within levels).assignment type isConst) fun first =>
      bounded fun steps =>
        fieldsWithin (Grammar.within levels).assignment type isConst (steps + 1) first
  memberName : Repeats memberNameTurn fun name => bounded (memberNameWithin · name)
  members (levels depth : Nat) (className : String) :
    Repeats (membersTurn
        (memberOfClass (.within levels) (classWithin (.within levels) depth) className))
      fun _ => bounded (membersWithin
        (memberOfClass (.within levels) (classWithin (.within levels) depth) className))
  classes (levels : Nat) : Solves (classFrom (.within levels))
    fun i => atKeyword (bounded (classWithin (.within levels) · i.1 i.2.1 i.2.2))
  contents (levels : Nat) : Repeats (contentsTurn (.within levels))
    fun braced => bounded (contentsWithin (.within levels) · braced)

theorem loopsRepeat : LoopsRepeat where
  takeWhile := takeWhile_repeats
  commaList h := by
    have hforward := h.forward
    exact commaList_repeats
  items close h := by
    have hforward := h.forward
    exact items_repeats close
  group := groupRest_repeats
  skipGroup := skipGroup_eq
  skipTo := skipTo_repeats
  angles := anglesRest_repeats
  skipAngles := skipAngles_eq
  typePath := typePath_repeats
  typeEnding := typeEnding_repeats
  types := typeName_solves
  trailers _ := trailers_repeats
  operands _ := operands_repeats
  lambdaNames := lambdaNamesRest_repeats
  lambdaParameters := lambdaParametersBy_eq
  initializers _ := initializerValue_solves
  statements levels opening := statements_repeats (delimits_statementWithin levels) opening
  catches _ := catches_repeats
  qualifiedTail := qualifiedTail_repeats
  attributes _ := attributes_repeats
  attributeLists _ := attributeLists_repeats
  fields _ := fields_repeats
  memberName := memberName_repeats
  members _ _ _ := members_repeats
  classes _ := class_solves
  contents _ := contents_repeats

end Parse

/-! ## Ends -/

/-- A cursor that is at the end has no tokens left, as none of them is the end. -/
theorem Cursor.rest_eq_nil_of_eof {c : Cursor} (hinside : ∀ t ∈ c.rest, t.isEof = false)
    (h : c.peek.isEof = true) : c.rest = [] := by
  obtain ⟨last, rest, stop⟩ := c
  cases rest with
  | nil => rfl
  | cons t ts =>
    have hnot : t.isEof = false := hinside t List.mem_cons_self
    have heof : t.isEof = true := h
    rw [hnot] at heof
    cases heof

namespace Parse

variable {g : CodeGrammar} [g.toGrammar.Forward] [Forward g.statement]

/-- Declarations that do not stand in braces are read up to the end of the file. -/
theorem contentsWithin_end {k : Nat} {c d : Cursor} {n m : Nesting} {contents : Contents}
    (hinside : ∀ t ∈ c.rest, t.isEof = false) (hk : c.rest.length ≤ k)
    (h : contentsWithin g k false c n = .ok contents d m) : d.rest = [] := by
  induction k generalizing c n contents with
  | zero =>
    cases h
    exact List.eq_nil_of_length_eq_zero (Nat.le_zero.1 hk)
  | succ k ih =>
    -- what is read takes a token, so there are steps left for what is behind
    have hbehind : ∀ {c' n' behind}, c.Passes c' →
        contentsWithin g k false c' n' = .ok behind d m → d.rest = [] := by
      intro c' n' behind hpass h
      have hlength := hpass.length_lt
      obtain ⟨taken, -, htakes⟩ := hpass
      refine ih (fun t ht => hinside t ?_) (by omega) h
      rw [htakes.rest]
      exact List.mem_append_right _ ht
    unfold contentsWithin at h
    obtain ⟨_, _, _, hpeek, h⟩ := bind_eq_ok h
    cases hpeek
    by_cases heof : c.peek.isEof = true
    · rw [if_pos heof] at h
      cases h
      exact Cursor.rest_eq_nil_of_eof hinside heof
    rw [if_neg heof, if_neg (by simp)] at h
    obtain ⟨_, _, _, hahead, h⟩ := bind_eq_ok h
    cases hahead
    split at h
    · obtain ⟨_, c₁, n₁, hskip, h⟩ := bind_eq_ok h
      exact hbehind (Strict.passes hskip) h
    obtain ⟨isNamespace, c₁, n₁, hword, h⟩ := bind_eq_ok h
    rcases eatWord_eq_ok hword with ⟨heaten, hpass⟩ | ⟨heaten, hsame⟩
    · rw [if_pos heaten] at h
      obtain ⟨name, c₂, n₂, hname, h⟩ := bind_eq_ok h
      obtain ⟨flat, c₃, n₃, hflat, h⟩ := bind_eq_ok h
      have hfront := hpass.trans_reaches ((Forward.reaches hname).trans (Forward.reaches hflat))
      split at h
      · obtain ⟨behind, c₄, n₄, hread, h⟩ := bind_eq_ok h
        cases h
        exact hbehind hfront hread
      · obtain ⟨opening, c₄, n₄, hopening, h⟩ := bind_eq_ok h
        obtain ⟨inside, c₅, n₅, hinside, h⟩ := bind_eq_ok h
        obtain ⟨behind, c₆, n₆, hread, h⟩ := bind_eq_ok h
        cases h
        exact hbehind (hfront.trans_reaches ((Forward.reaches hopening).trans
          (Forward.reaches hinside))) hread
    · rw [heaten, if_neg Bool.false_ne_true, hsame] at h
      obtain ⟨classes, c₂, n₂, hclasses, h⟩ := bind_eq_ok h
      obtain ⟨behind, c₃, n₃, hread, h⟩ := bind_eq_ok h
      cases h
      exact hbehind (Strict.passes hclasses) hread

end Parse

/-! ## Files -/

/-- What is read of a file lies in the file: the tokens in front of a cursor and ahead of it,
    the tokens of a type and the contents of literals. -/
structure ReadsInside (tokens : List Token) (stop : Span) : Prop where
  cursors {c : Cursor} : (Cursor.start tokens stop).Visited c → ∃ i, c.StandsAt tokens stop i ∧
    ∀ k, (tokens ++ [.eof stop])[min (i + k) tokens.length]? = some (c.peekAt k)
  types {c d : Cursor} {n m : Nesting} {text : String} :
    (Cursor.start tokens stop).Visited c → Parse.typeName c n = .ok text d m →
      ∃ i j, i ≤ j ∧ c.StandsAt tokens stop i ∧ d.StandsAt tokens stop j ∧
        text = typeText ((tokens.drop i).take (j - i))
  strings {t : Token} : t ∈ tokens → t.kind = .string ∨ t.kind = .character →
    ∃ inside, slice? t.text 1 (t.text.utf8ByteSize - 1) = some inside ∧
      stringOf t.text = String.ofList (decodeEscapes inside)
  verbatims {t : Token} : t ∈ tokens → t.kind = .verbatimString →
    ∃ inside, slice? t.text 2 (t.text.utf8ByteSize - 1) = some inside ∧
      verbatimOf t.text = String.ofList (undouble inside)

theorem readsInside_of_scan {text : String} {tokens : List Token} {stop : Place}
    (h : scan text = .ok (tokens, stop)) : ReadsInside tokens (stop.span []) where
  cursors hvisited := by
    obtain ⟨i, hi⟩ := hvisited.standsAt
    exact ⟨i, hi, hi.peekAt⟩
  types hvisited htype := by
    obtain ⟨i, hi⟩ := hvisited.standsAt
    obtain ⟨taken, htaken, htext⟩ := Parse.typeName_text htype
    refine ⟨i, i + taken.length, Nat.le_add_right _ _, hi, hi.takes htaken, ?_⟩
    rw [htext, ← hi.rest, htaken.rest, Nat.add_sub_cancel_left, List.take_left]
  strings {t} ht hkind := by
    obtain ⟨x, rfl, -⟩ := LexedText.exists_of_scan h
    refine ⟨_, ?_, rfl⟩
    rcases hkind with hkind | hkind
    · have hquotes : t.kind.quotes? = some (['"'], '"') := by rw [hkind]; rfl
      exact x.slice?_quoted ht hquotes
    · have hquotes : t.kind.quotes? = some (['\''], '\'') := by rw [hkind]; rfl
      exact x.slice?_quoted ht hquotes
  verbatims {t} ht hkind := by
    obtain ⟨x, rfl, -⟩ := LexedText.exists_of_scan h
    have hquotes : t.kind.quotes? = some (['@', '"'], '"') := by rw [hkind]; rfl
    exact ⟨_, x.slice?_quoted ht hquotes, rfl⟩

/-- No loop of reading goes on without taking a token, nothing is looked at outside the file,
    and a file that is read without an error is read to its end. -/
theorem SourceTree.parse_total (file : SourceFile) :
    Parse.LoopsRepeat ∧ ∀ tokens stop, scan file.text = .ok (tokens, stop) →
      let start := Cursor.start tokens (stop.span [])
      ReadsInside tokens (stop.span []) ∧
        ∀ contents c n, Parse.contents (.within nestingLimit) start { limit := nestingLimit } =
          .ok contents c n → start.Visited c ∧ c.rest = [] := by
  refine ⟨Parse.loopsRepeat, fun tokens stop hscan => ⟨readsInside_of_scan hscan, ?_⟩⟩
  intro contents c n hcontents
  refine ⟨.read .start .contents hcontents, ?_⟩
  -- no token is the end, so reading goes on behind the last one
  have hinside : ∀ t ∈ tokens, t.isEof = false := by
    obtain ⟨x, rfl, -⟩ := LexedText.exists_of_scan hscan
    exact fun t ht => x.not_eof_of_mem_lexemes ht
  exact Parse.contentsWithin_end hinside (Nat.le_refl _) hcontents

/-- A file with a statement that cannot be read, a lambda and two literals. -/
def brokenStatement : SourceFile where
  name := "a"
  text := "class C\x7bvoid M()\x7b=;f((a,b)=>'é');x=@\"ü\"\"\";\x7d\x7d"

/-- The file is read past the statement, and its literals are cut between their quotes. -/
theorem SourceTree.parse_total_broken :
    (∃ tree, parse brokenStatement = .ok tree) ∧
      ∃ tokens stop, scan brokenStatement.text = .ok (tokens, stop) ∧
        (tokens.filterMap fun t => t.kind.quotes?.bind fun quotes =>
          slice? t.text (bytes quotes.1) (t.text.utf8ByteSize - 1)) = [['é'], ['ü', '"', '"']] ∧
        ReadsInside tokens (stop.span []) := by
  have hread : (parse brokenStatement).isOk = true := by decide +kernel
  have hcut : (scan brokenStatement.text).toOption.map (fun found =>
      found.1.filterMap fun t => t.kind.quotes?.bind fun quotes =>
        slice? t.text (bytes quotes.1) (t.text.utf8ByteSize - 1)) =
          some [['é'], ['ü', '"', '"']] := by
    decide +kernel
  obtain ⟨-, hinside⟩ := parse_total brokenStatement
  constructor
  · cases hparse : parse brokenStatement with
    | ok tree => exact ⟨tree, rfl⟩
    | error error =>
      rw [hparse] at hread
      cases hread
  · cases hscan : scan brokenStatement.text with
    | error e =>
      rw [hscan] at hcut
      cases hcut
    | ok found =>
      obtain ⟨tokens, stop⟩ := found
      rw [hscan] at hcut
      exact ⟨tokens, stop, rfl, Option.some.inj hcut, (hinside tokens stop hscan).1⟩

end GatewayPolicy
