import GatewayPolicy.Proofs.Reading.Blocks
import GatewayPolicy.Proofs.Reading.ExpressionLoops

/-! # Loops of statements and declarations

  The loops over statements, members and declarations, each with its turn. A statement that
  cannot be read is skipped, and may then take nothing in front of a closing brace; but the
  loop over statements never starts a turn there.
-/

namespace GatewayPolicy

-- a production of many steps takes an instance for each of them
set_option synthInstance.maxSize 1024

namespace Parse

variable {c d : Cursor} {n m : Nesting}

/-! ## Statements -/

section Statements

variable {q : Parse Stmt}

/-- A turn of reading the statements of a block. -/
def statementsTurn (opening : Span) (statement : Parse Stmt) (_ : Unit) :
    Parse (Turn Unit (List Stmt)) := do
  let t ← peek
  if t.isSymbol .closeBrace then return .stop []
  if t.isEof then
    throw { fault := .unclosed Symbol.openBrace.text .closeBrace, span := opening }
  let first ← recovering statement
  return .again () (first :: ·)

/-- Also a statement that is recovered takes a token, since no brace is next. -/
theorem statements_repeats (hq : Delimits q) (opening : Span) :
    Repeats (statementsTurn opening q) fun _ => bounded (statementsWithin opening q) := by
  have hforward := hq.forward
  apply repeats_of_steps fun k _ => statementsWithin opening q k
  · intro s c
    apply past_look
    apply past_ite
    · intro _
      exact past_stop []
    intro hbrace
    apply past_ite
    · intro _
      exact past_throw _
    · intro _
      apply past_of_passes
      intro first d n m h
      exact ((recovering_recovered hq h).read (Bool.not_eq_true _ ▸ hbrace)).passes
  · intro k s
    simp only [statementsWithin, statementsTurn, bind_assoc, ite_bind, pure_bind, throw_bind,
      Turn.follow]
  · intro s last stop n
    rfl

/-- A turn of reading the clauses that catch errors. -/
def catchesTurn (statement : Parse Stmt) (_ : Unit) : Parse (Turn Unit Unit) := do
  if ← eatWord "catch" then
    if ← at? .openParen then
      let _ ← skipGroup
    if ← eatWord "when" then
      let _ ← skipGroup
    let _ ← block statement
    return .again () id
  else return .stop ()

theorem catches_repeats [Forward q] :
    Repeats (catchesTurn q) fun _ => bounded (catchesWithin q) := by
  apply repeats_of_steps fun k _ => catchesWithin q k
  · intro s c
    exact past_eatWord (past_stop ())
  · intro k s
    simp only [catchesWithin, catchesTurn, bind_assoc, ite_bind, pure_bind, Turn.follow, id,
      bind_pure]
  · intro s last stop n
    rfl

end Statements

/-! ## Names and attributes -/

/-- A turn of reading the further names of a qualified name. -/
def qualifiedTailTurn (_ : Unit) : Parse (Turn Unit String) := do
  if ← atAny? [.dot, .doubleColon] then
    let separator ← advance
    let name ← expectName
    return .again () (separator.text ++ name.text ++ ·)
  else return .stop ""

theorem qualifiedTail_repeats :
    Repeats qualifiedTailTurn fun _ => bounded qualifiedTailWithin := by
  apply repeats_of_steps fun k _ => qualifiedTailWithin k
  · intro s c
    apply past_look
    apply past_ite
    · intro hdot
      exact past_advance (Token.not_eof_of_isAnySymbol hdot)
    · intro _
      exact past_stop ""
  · intro k s
    simp only [qualifiedTailWithin, qualifiedTailTurn, bind_assoc, ite_bind, pure_bind, Turn.follow]
  · intro s last stop n
    rfl

section Attributes

variable {g : Grammar} [g.Forward]

/-- A turn of reading the attributes of one bracket. -/
def attributesTurn (g : Grammar) (_ : Unit) : Parse (Turn Unit (List AttributeUse)) := do
  let first ← attributeUse g
  if ← eat .comma then
    if ← at? .closeBracket then return .stop [first]
    else return .again () (first :: ·)
  else return .stop [first]

theorem attributes_repeats :
    Repeats (attributesTurn g) fun _ => bounded (attributesWithin g) := by
  apply repeats_of_steps fun k _ => attributesWithin g k
  · intro s c
    apply past_bind
    intro first d _
    exact past_eat (past_stop [first])
  · intro k s
    simp only [attributesWithin, attributesTurn, bind_assoc, ite_bind, pure_bind, Turn.follow]
  · intro s last stop n
    apply bind_congr_at rfl
    intro first d m hitem
    rw [eat_bind_end ((Forward.reaches hitem).rest_eq_nil rfl)]
    rfl

/-- A turn of reading the attributes of all brackets in front of a declaration. -/
def attributeListsTurn (g : Grammar) (_ : Unit) : Parse (Turn Unit (List AttributeUse)) := do
  if ← eat .openBracket then
    if (← peek).isIdentifier && (← peekAt 1).isSymbol .colon then
      let _ ← advance
      let _ ← advance
    let attributes ← bounded (attributesWithin g)
    let _ ← expect .closeBracket
    return .again () (attributes ++ ·)
  else return .stop []

theorem attributeLists_repeats : Repeats (attributeListsTurn g) fun _ => attributeLists g := by
  apply repeats_of_steps fun k _ => attributeListsWithin g k
  · intro s c
    exact past_eat (past_stop [])
  · intro k s
    simp only [attributeListsWithin, attributeListsTurn, bind_assoc, ite_bind, pure_bind,
      Turn.follow]
  · intro s last stop n
    rfl

end Attributes

/-! ## Members -/

section Fields

variable {e : Parse Expr} [Forward e]

/-- A turn of reading the fields of one declaration. -/
def fieldsTurn (expression : Parse Expr) (type : String) (isConst : Bool) (name : Token) :
    Parse (Turn Token (List Member)) := do
  let initializer ← (do
    if ← eat .assign then fieldInitializer expression else return none)
  let field : FieldDecl :=
    { name := name.text, type, isConst, initializer, span := name.span.cover (← last) }
  if ← eat .comma then
    let next ← expectName
    return .again next (.field field :: ·)
  else return .stop [.field field]

theorem fields_repeats (type : String) (isConst : Bool) :
    Repeats (fieldsTurn e type isConst)
      fun first => bounded fun steps => fieldsWithin e type isConst (steps + 1) first := by
  apply repeats_of_steps fun k => fieldsWithin e type isConst (k + 1)
  · intro name c
    apply past_bind
    intro initializer d _
    apply past_look
    exact past_eat (past_stop _)
  · intro k name
    simp only [fieldsWithin, fieldsTurn, bind_assoc, ite_bind, pure_bind, Turn.follow]
  · intro name last stop n
    rfl

end Fields

/-- A turn of reading the name of a member. -/
def memberNameTurn (name : Token) : Parse (Turn Token Token) := do
  if ← eat .dot then return .again (← expectName) id else return .stop name

theorem memberName_repeats :
    Repeats memberNameTurn fun name => bounded (memberNameWithin · name) := by
  apply repeats_of_steps memberNameWithin
  · intro name c
    exact past_eat (past_stop name)
  · intro k name
    simp only [memberNameWithin, memberNameTurn, bind_assoc, ite_bind, pure_bind, Turn.follow, id,
      bind_pure]
  · intro name last stop n
    rfl

/-! ## Classes -/

theorem Strict.bind {α β : Type} {p : Parse α} {f : α → Parse β} (hp : Strict p)
    (hf : ∀ v, Forward (f v)) : Strict (p >>= f) := inferInstance

theorem Forward.bind_strict {α β : Type} {p : Parse α} {f : α → Parse β} (hp : Forward p)
    (hf : ∀ v, Strict (f v)) : Strict (p >>= f) := inferInstance

instance {α : Type} {loop : Nat → Parse α} [h : ∀ k, Strict (loop k)] :
    Strict (bounded loop) where
  passes hloop := (h _).passes hloop

instance {inner : Parse String} [Forward inner] : Strict (typeOf inner) where
  passes {c d n m v} h := by
    obtain ⟨start, _, _, hstart, h⟩ := bind_eq_ok h
    cases hstart
    split at h
    · exact Strict.passes h
    split at h
    · rename_i hname
      rw [Token.namesType, Bool.and_eq_true] at hname
      obtain ⟨_, _, _, hadvance, h⟩ := bind_eq_ok h
      cases hadvance
      exact (Cursor.passes_next (Token.not_eof_of_isIdentifier hname.1)).trans_reaches
        (Forward.reaches h)
    · exact Strict.passes h

instance : Strict typeName := by
  have hunfold : typeName = typeOf typeName := typeName_solves.unfolds ()
  rw [hunfold]
  infer_instance

instance : Strict skipTypeBody := by
  unfold skipTypeBody
  infer_instance

/-- A member is skipped up to its end, which is taken. -/
instance : Strict skipMember where
  passes {c d n m v} h := by
    obtain ⟨_, c', _, hskip, h⟩ := bind_eq_ok h
    have hreach : c.Reaches c' := Forward.reaches hskip
    obtain ⟨t, _, _, hpeek, h⟩ := bind_eq_ok h
    cases hpeek
    apply hreach.trans_passes
    split at h
    · rename_i hsemicolon
      cases h
      exact Cursor.passes_next (Token.not_eof_of_isSymbol hsemicolon)
    split at h
    · exact Strict.passes h
    split at h
    · exact Strict.passes h
    split at h
    · exact Strict.passes h
    · exact Strict.passes h

section Classes

variable {g : CodeGrammar} [g.toGrammar.Forward] [Forward g.statement]

instance (start : Span) (returnType : String) (name : Token) (mods : List String) :
    Forward (methodOf g start returnType name mods) := by
  unfold methodOf
  infer_instance

instance (start : Span) {skip : Parse Unit} [Strict skip] : Strict (skippedMember start skip) := by
  unfold skippedMember
  infer_instance

instance (start : Span) (mods : List String) : Strict (typedMember g start mods) := by
  unfold typedMember
  apply Strict.bind inferInstance
  intro type
  apply Forward.bind inferInstance
  intro next
  split
  · infer_instance
  · apply Forward.bind inferInstance
    intro first
    apply Forward.bind inferInstance
    intro name
    infer_instance

instance {nested : ClassParse} [∀ s a mods, Strict (nested s a mods)] (className : String) :
    Strict (memberOfClass g nested className) := by
  unfold memberOfClass
  infer_instance

instance {nested : ClassParse} [∀ s a mods, Forward (nested s a mods)] (className : String) :
    Forward (memberOfClass g nested className) := by
  unfold memberOfClass
  infer_instance

instance {member : Parse ClassParts} [Forward member] (k : Nat) :
    Forward (membersWithin member k) := by
  induction k with
  | zero =>
    unfold membersWithin
    infer_instance
  | succ k ih =>
    unfold membersWithin
    infer_instance

instance {member : String → Parse ClassParts} [∀ name, Forward (member name)] (start : Span)
    (attributes : List AttributeUse) (mods : List String) :
    Strict (classOf member start attributes mods) := by
  unfold classOf
  apply Forward.bind_strict inferInstance
  intro keyword
  extract_lets named
  have hnamed : ∀ r, Strict (named r) := by
    intro r
    apply Strict.bind inferInstance
    intro name
    apply Forward.bind inferInstance
    intro angles
    extract_lets bases
    have hbases : ∀ r, Forward (bases r) := by
      intro r
      infer_instance
    clear_value bases
    infer_instance
  -- records and classes go on in the same way, so that way need not be opened again
  clear_value named
  infer_instance

instance strict_classWithin (depth : Nat) (start : Span) (attributes : List AttributeUse)
    (mods : List String) : Strict (classWithin g depth start attributes mods) := by
  induction depth generalizing start attributes mods with
  | zero =>
    unfold classWithin
    infer_instance
  | succ depth ih =>
    have hmember : ∀ name, Strict (memberOfClass g (classWithin g depth) name) := fun name =>
      inferInstance
    exact inferInstanceAs
      (Strict (classOf (memberOfClass g (classWithin g depth)) start attributes mods))

/-- A turn of reading the members of a class. -/
def membersTurn (member : Parse ClassParts) (_ : Unit) : Parse (Turn Unit ClassParts) := do
  if ← eat .closeBrace then return .stop {}
  else if (← peek).isEof then expected (.symbol .closeBrace)
  else
    let first ← member
    return .again () first.append

theorem members_repeats {member : Parse ClassParts} [Strict member] :
    Repeats (membersTurn member) fun _ => bounded (membersWithin member) := by
  apply repeats_of_steps fun k _ => membersWithin member k
  · intro s c
    have hrest : Past (do
        if (← peek).isEof then expected (.symbol .closeBrace)
        else
          let first ← member
          return Turn.again () first.append) c := by
      apply past_look
      exact past_strict
    exact past_eat hrest
  · intro k s
    simp only [membersWithin, membersTurn, bind_assoc, ite_bind, pure_bind, expected_bind,
      Turn.follow]
  · intro s last stop n
    rfl

theorem membersWithin_same {member member' : Parse ClassParts} [Forward member]
    (h : SameFrom c member member') (k : Nat) :
    SameFrom c (membersWithin member k) (membersWithin member' k) := by
  induction k with
  | zero => exact .rfl
  | succ k ih =>
    refine SameFrom.rfl.bind fun closed => .ite .rfl (SameFrom.rfl.bind fun t => .ite .rfl ?_)
    exact h.bind fun first => ih.bind fun _ => .rfl

/-- A class from its base types on. -/
def classTail (member : String → Parse ClassParts) (start : Span)
    (attributes : List AttributeUse) (mods : List String) (name : Token) :
    Parse (List ClassDecl) := do
  let baseTypes ← (do if ← eat .colon then commaList baseType else return [])
  skipConstraints
  let parts ← (do
    if ← eat .semicolon then return {}
    else
      let _ ← expect .openBrace
      let parts ← bounded (membersWithin (member name.text))
      let _ ← eat .semicolon
      return parts)
  return { name := name.text, attributes, modifiers := mods, baseTypes, members := parts.members,
           nameSpan := name.span, span := start.cover (← last) } :: parts.nested

/-- A class from its name on. -/
def classNamed (member : String → Parse ClassParts) (start : Span)
    (attributes : List AttributeUse) (mods : List String) : Parse (List ClassDecl) := do
  let name ← expectName
  if ← at? .less then skipAngles
  if ← at? .openParen then
    let _ ← skipGroup
  classTail member start attributes mods name

theorem classOf_eq (member : String → Parse ClassParts) (start : Span)
    (attributes : List AttributeUse) (mods : List String) :
    classOf member start attributes mods = (do
      let keyword ← advance
      if keyword.isWord "record" then
        unless ← eatWord "class" do
          let _ ← eatWord "struct"
      classNamed member start attributes mods) := rfl

section Members

variable {member member' : String → Parse ClassParts} [∀ name, Forward (member name)]

/-- The members of a class stand behind its name. -/
theorem classNamed_congr (start : Span) (attributes : List AttributeUse) (mods : List String)
    (h : ∀ name d m, c.Passes d → member name d m = member' name d m) :
    classNamed member start attributes mods c n = classNamed member' start attributes mods c n := by
  apply bind_congr_at rfl
  intro name d m hname
  have hmembers : ∀ k, SameFrom d (membersWithin (member name.text) k)
      (membersWithin (member' name.text) k) := by
    intro k
    exact membersWithin_same (sameFrom_of_passes (h name.text) (Strict.passes hname)) k
  have htail : SameFrom d (classTail member start attributes mods name)
      (classTail member' start attributes mods name) := by
    refine SameFrom.rfl.bind fun baseTypes => SameFrom.rfl.bind fun _ => ?_
    refine SameFrom.bind ?_ fun parts => .rfl
    refine SameFrom.rfl.bind fun bodiless => .ite .rfl (SameFrom.rfl.bind fun _ => ?_)
    exact (SameFrom.bounded hmembers).bind fun _ => .rfl
  have hparameters : SameFrom d
      (do
        if ← at? .openParen then
          let _ ← skipGroup
        classTail member start attributes mods name)
      (do
        if ← at? .openParen then
          let _ ← skipGroup
        classTail member' start attributes mods name) :=
    SameFrom.rfl.bind fun _ => .ite (SameFrom.rfl.bind fun _ => htail) htail
  exact (SameFrom.rfl.bind fun _ => .ite (SameFrom.rfl.bind fun _ => hparameters) hparameters).here

theorem classOf_congr (start : Span) (attributes : List AttributeUse) (mods : List String)
    (h : ∀ name d m, c.Passes d → member name d m = member' name d m) :
    classOf member start attributes mods c n = classOf member' start attributes mods c n := by
  have hnamed : SameFrom c (classNamed member start attributes mods)
      (classNamed member' start attributes mods) := by
    intro d m hreach
    apply classNamed_congr
    intro name e m hpass
    exact h name e m (hreach.trans_passes hpass)
  rw [classOf_eq, classOf_eq]
  refine (SameFrom.rfl.bind fun keyword => .ite ?_ hnamed).here
  exact SameFrom.rfl.bind fun isClass => .ite hnamed (SameFrom.rfl.bind fun _ => hnamed)

end Members

omit [Forward g.statement] in
theorem memberOfClass_same {nested nested' : ClassParse} [∀ s a mods, Forward (nested s a mods)]
    (h : ∀ s a mods, SameFrom c (nested s a mods) (nested' s a mods)) (className : String) :
    SameFrom c (memberOfClass g nested className) (memberOfClass g nested' className) := by
  refine SameFrom.rfl.bind fun start => SameFrom.rfl.bind fun attributes => ?_
  refine SameFrom.rfl.bind fun mods => SameFrom.rfl.bind fun t => SameFrom.rfl.bind fun next => ?_
  exact .ite ((h start attributes mods).bind fun _ => .rfl) .rfl

/-- A class, of which the keyword has to be next. -/
def atKeyword (read : Parse (List ClassDecl)) : Parse (List ClassDecl) := do
  if (← peek).isAnyWord ["class", "struct", "record"] then read else expected .typeDeclaration

instance {read : Parse (List ClassDecl)} [Forward read] : Forward (atKeyword read) := by
  unfold atKeyword
  infer_instance

theorem atKeyword_eq {read : Parse (List ClassDecl)}
    (h : c.peek.isAnyWord ["class", "struct", "record"] = true) :
    atKeyword read c n = read c n := by
  show (if c.peek.isAnyWord ["class", "struct", "record"] then read
    else expected .typeDeclaration) c n = read c n
  rw [if_pos h]

omit [g.toGrammar.Forward] [Forward g.statement] in
/-- Nested classes are read at their keywords. -/
theorem memberOfClass_atKeyword (nested : ClassParse) (className : String) :
    memberOfClass g (fun s a mods => atKeyword (nested s a mods)) className =
      memberOfClass g nested className := by
  funext c n
  apply bind_congr_at rfl
  intro start c' n' _
  apply bind_congr_at rfl
  intro attributes c' n' _
  apply bind_congr_at rfl
  intro mods c' n' _
  apply bind_congr_at rfl
  intro t d m hpeek
  cases hpeek
  apply bind_congr_at rfl
  intro next d m hnext
  cases hnext
  split
  · rename_i hkeyword
    have hany : c'.peek.isAnyWord ["class", "struct", "record"] = true := by
      simp only [Token.isAnyWord, List.any_cons, List.any_nil, Bool.or_eq_true,
        Bool.and_eq_true] at hkeyword ⊢
      tauto
    exact bind_congr_at (atKeyword_eq hany) fun _ _ _ _ => rfl
  · rfl

/-- Classes, read by a recursion on those nested in them. -/
def classFrom (g : CodeGrammar)
    (nested : Span × List AttributeUse × List String → Parse (List ClassDecl))
    (i : Span × List AttributeUse × List String) : Parse (List ClassDecl) :=
  atKeyword (classOf (memberOfClass g fun s a mods => nested (s, a, mods)) i.1 i.2.1 i.2.2)

theorem classFrom_guarded : Guarded (classFrom g) := by
  intro p q c n hforward hagree i
  have hclass : classOf (memberOfClass g fun s a mods => p (s, a, mods)) i.1 i.2.1 i.2.2 c n =
      classOf (memberOfClass g fun s a mods => q (s, a, mods)) i.1 i.2.1 i.2.2 c n := by
    apply classOf_congr
    intro name d m hpass
    have hnested := fun s a mods => sameFrom_of_passes (hagree (s, a, mods)) hpass
    exact (memberOfClass_same hnested name).here
  apply bind_congr_at rfl
  intro t d m hpeek
  cases hpeek
  split
  · exact hclass
  · rfl

/-- A class is read by one recursion, however deep classes are nested in it. -/
theorem class_solves :
    Solves (classFrom g) fun i => atKeyword (bounded (classWithin g · i.1 i.2.1 i.2.2)) := by
  have hread : ∀ start attributes mods,
      atKeyword (bounded (classWithin g · start attributes mods)) =
        bounded fun k => atKeyword (classWithin g k start attributes mods) := by
    intro start attributes mods
    funext c n
    show (if c.peek.isAnyWord ["class", "struct", "record"] then _
      else expected .typeDeclaration) c n =
        (if c.peek.isAnyWord ["class", "struct", "record"] then _
          else expected .typeDeclaration) c n
    split <;> rfl
  simp only [hread]
  apply classFrom_guarded.solves_bounded fun k i => atKeyword (classWithin g k i.1 i.2.1 i.2.2)
  · intro k i
    have hmember : (fun name => memberOfClass g
        (fun s a mods => atKeyword (classWithin g k s a mods)) name) =
          memberOfClass g (classWithin g k) := by
      funext name
      exact memberOfClass_atKeyword _ name
    exact congrArg (fun member => atKeyword (classOf member i.1 i.2.1 i.2.2)) hmember.symm
  · intro i last stop n
    rfl

end Classes

/-! ## Files -/

section Files

variable {g : CodeGrammar} [g.toGrammar.Forward] [Forward g.statement]

instance : Strict (typeDeclaration g) := by
  unfold typeDeclaration
  infer_instance

instance (k : Nat) (braced : Bool) : Forward (contentsWithin g k braced) := by
  induction k generalizing braced with
  | zero =>
    unfold contentsWithin
    infer_instance
  | succ k ih =>
    unfold contentsWithin
    infer_instance

instance : Forward (contents g) := by
  unfold contents
  infer_instance

/-- Declarations, read by a recursion on what is behind the first of them. -/
def contentsFrom (g : CodeGrammar) (again : Bool → Parse Contents) (braced : Bool) :
    Parse Contents := do
  let t ← peek
  if t.isEof then
    if braced then expected (.symbol .closeBrace) else return {}
  else if braced && t.isSymbol .closeBrace then
    let _ ← advance
    return {}
  else if startsImport t (← peekAt 1) then
    skipPastSemicolon
    again braced
  else if ← eatWord "namespace" then
    let named : Contents := { namespaceName := some (← qualifiedName) }
    if ← eat .semicolon then return named.append (← again braced)
    else
      let _ ← expect .openBrace
      let inside ← again true
      let behind ← again braced
      return (named.append inside).append behind
  else
    let classes ← typeDeclaration g
    let behind ← again braced
    return ({ classes } : Contents).append behind

/-- A turn of reading declarations. -/
def contentsTurn (g : CodeGrammar) (braced : Bool) : Parse (Turn Bool Contents) := do
  let t ← peek
  if t.isEof then
    if braced then expected (.symbol .closeBrace) else return .stop {}
  else if braced && t.isSymbol .closeBrace then
    let _ ← advance
    return .stop {}
  else if startsImport t (← peekAt 1) then
    skipPastSemicolon
    return .again braced id
  else if ← eatWord "namespace" then
    let named : Contents := { namespaceName := some (← qualifiedName) }
    if ← eat .semicolon then return .again braced named.append
    else
      let _ ← expect .openBrace
      let inside ← bounded (contentsWithin g · true)
      return .again braced (named.append inside).append
  else
    let classes ← typeDeclaration g
    return .again braced ({ classes } : Contents).append

theorem contentsFrom_guarded : Guarded (contentsFrom g) := by
  intro p q c n hforward hagree braced
  have hbehind : ∀ {d}, c.Passes d → ∀ braced, SameFrom d (p braced) (q braced) :=
    fun hpass braced => sameFrom_of_passes (hagree braced) hpass
  apply bind_congr_at rfl
  intro t d m hpeek
  cases hpeek
  split
  · rfl
  split
  · rfl
  apply bind_congr_at rfl
  intro next d m hnext
  cases hnext
  split
  · apply bind_congr_at rfl
    intro _ d m hskip
    exact (hbehind (Strict.passes hskip) braced).here
  apply bind_congr_at rfl
  intro isNamespace d m heat
  rcases eatWord_eq_ok heat with ⟨rfl, hpass⟩ | ⟨rfl, rfl⟩
  · refine (SameFrom.rfl.bind fun name => SameFrom.rfl.bind fun isWhole => .ite ?_ ?_).here
    · exact (hbehind hpass braced).bind fun _ => .rfl
    · refine SameFrom.rfl.bind fun _ => (hbehind hpass true).bind fun inside => ?_
      exact (hbehind hpass braced).bind fun _ => .rfl
  · apply bind_congr_at rfl
    intro classes d m hclasses
    exact ((hbehind (Strict.passes hclasses) braced).bind fun _ => .rfl).here

theorem contents_repeats :
    Repeats (contentsTurn g) fun braced => bounded (contentsWithin g · braced) := by
  have hsolves : Solves (contentsFrom g) fun braced => bounded (contentsWithin g · braced) := by
    apply contentsFrom_guarded.solves_bounded (contentsWithin g)
    · intro k braced
      rfl
    · intro braced last stop n
      cases braced <;> rfl
  apply repeats_of_eq
  · intro braced c
    apply past_look
    apply past_ite
    · intro _
      apply past_ite
      · intro _
        exact past_strict
      · intro _
        exact past_stop _
    intro _
    apply past_ite
    · intro _
      apply past_bind
      intro _ d _
      exact past_stop _
    intro _
    apply past_look
    apply past_ite
    · intro _
      exact past_strict
    · intro _
      have hclasses : Past (do
          let classes ← typeDeclaration g
          return Turn.again braced ({ classes } : Contents).append) c := past_strict
      exact past_eatWord hclasses
  · intro braced c n
    rw [hsolves.unfolds]
    simp only [contentsFrom, contentsTurn, bind_assoc, ite_bind, pure_bind, expected_bind,
      Turn.follow, id, bind_pure]

end Files

end Parse

end GatewayPolicy
