import GatewayPolicy.Authoring.Unit
import GatewayPolicy.Proofs.Reading.Statement

/-! # Files, side by side

  One lemma for each production of declarations. At the end, `aligned_contents`
  says that the contents of two aligned files correspond.
-/

namespace GatewayPolicy

/-- Productions that read the code of aligned classes alike. -/
structure CodeGrammar.Aligned (a : Alignment) (g : CodeGrammar) : Prop where
  grammar : g.toGrammar.Aligned a
  statement : Parse.Aligned a (Stmt.Aligned a) g.statement g.statement

theorem CodeGrammar.aligned_within {a : Alignment} (limit : Nat) :
    (CodeGrammar.within limit).Aligned a :=
  ⟨Grammar.aligned_within limit, Parse.aligned_statementWithin limit⟩

namespace Parse

variable {a : Alignment}

/-! ## Names and attributes -/

theorem aligned_qualifiedTailWithin (k : Nat) :
    Aligned a Eq (qualifiedTailWithin k) (qualifiedTailWithin k) := by
  induction k with
  | zero => exact aligned_pure rfl
  | succ k ih =>
    refine (aligned_atAny _).bind_eq fun b => ?_
    split
    · refine aligned_advance.bind fun t t' ht => ?_
      refine aligned_expectName.bind fun u u' hu => ?_
      rw [← a.text_eq ht, ← a.text_eq hu.1]
      exact ih.bind_eq fun tail => aligned_pure rfl
    · exact aligned_pure rfl

theorem aligned_qualifiedName : Aligned a Eq qualifiedName qualifiedName := by
  refine aligned_expectName.bind fun t t' ht => ?_
  rw [← a.text_eq ht.1]
  exact (aligned_bounded aligned_qualifiedTailWithin).bind_eq fun tail => aligned_pure rfl

section Attributes

variable {g : Grammar}

theorem aligned_attributeUse (hg : g.Aligned a) :
    Aligned a (AttributeUse.Aligned a) (attributeUse g) (attributeUse g) := by
  refine aligned_here.bind fun s s' hs => ?_
  refine aligned_qualifiedName.bind_eq fun name => ?_
  refine Aligned.bind (R := List.Forall₂ (Argument.Aligned a)) ?_ fun as as' has => ?_
  · refine (aligned_eat _).bind_eq fun b => ?_
    split
    · refine Aligned.bind (R := List.Forall₂ (Argument.Aligned a)) ?_ fun as as' has => ?_
      · refine (aligned_at _).bind_eq fun b => ?_
        split
        · exact aligned_pure .nil
        · exact (aligned_argument hg true).commaList
      · exact (aligned_expect _).bind fun _ _ _ => aligned_pure has
    · exact aligned_pure .nil
  · refine aligned_last.bind fun l l' hl => ?_
    exact aligned_pure ⟨rfl, has, a.cover hs hl⟩

theorem aligned_attributesWithin (hg : g.Aligned a) (k : Nat) :
    Aligned a (List.Forall₂ (AttributeUse.Aligned a)) (attributesWithin g k)
      (attributesWithin g k) := by
  induction k with
  | zero => exact (aligned_attributeUse hg).bind fun _ _ h => aligned_pure (.cons h .nil)
  | succ k ih =>
    refine (aligned_attributeUse hg).bind fun u u' hu => ?_
    refine (aligned_eat _).bind_eq fun b => ?_
    split
    · refine (aligned_at _).bind_eq fun b => ?_
      split
      · exact aligned_pure (.cons hu .nil)
      · exact ih.bind fun us us' hus => aligned_pure (.cons hu hus)
    · exact aligned_pure (.cons hu .nil)

theorem aligned_attributeListsWithin (hg : g.Aligned a) (k : Nat) :
    Aligned a (List.Forall₂ (AttributeUse.Aligned a)) (attributeListsWithin g k)
      (attributeListsWithin g k) := by
  induction k with
  | zero => exact aligned_pure .nil
  | succ k ih =>
    refine (aligned_eat _).bind_eq fun b => ?_
    split
    · refine aligned_peek.bind fun t t' ht => ?_
      refine (aligned_peekAt 1).bind fun u u' hu => ?_
      -- what the attributes apply to may be named in front of them
      extract_lets attributes
      have hattributes : ∀ r, Aligned a (List.Forall₂ (AttributeUse.Aligned a)) (attributes r)
          (attributes r) := by
        intro r
        refine (aligned_bounded (aligned_attributesWithin hg)).bind fun us us' hus => ?_
        refine (aligned_expect _).bind fun _ _ _ => ?_
        exact ih.bind fun vs vs' hvs => aligned_pure (List.rel_append hus hvs)
      rw [← Alignment.isIdentifier_eq ht, ← Alignment.isSymbol_eq hu]
      split
      · exact aligned_advance.bind fun _ _ _ => aligned_advance.bind fun _ _ _ => hattributes ()
      · exact hattributes ()
    · exact aligned_pure .nil

theorem aligned_attributeLists (hg : g.Aligned a) :
    Aligned a (List.Forall₂ (AttributeUse.Aligned a)) (attributeLists g) (attributeLists g) :=
  aligned_bounded (aligned_attributeListsWithin hg)

theorem texts_eq {ts ts' : List Token} (h : List.Forall₂ a.token ts ts') :
    ts.map (·.text) = ts'.map (·.text) := by
  induction h with
  | nil => rfl
  | cons head _ ih => rw [List.map_cons, List.map_cons, a.text_eq head, ih]

theorem aligned_modifiers : Aligned a Eq modifiers modifiers :=
  (aligned_takeWhile (Alignment.tests_isAnyWord _)).bind fun _ _ h => aligned_pure (texts_eq h)

/-! ## Methods -/

theorem aligned_parameter (hg : g.Aligned a) :
    Aligned a (Parameter.Aligned a) (parameter g) (parameter g) := by
  refine aligned_here.bind fun s s' hs => ?_
  refine (aligned_attributeLists hg).bind fun _ _ _ => ?_
  refine (aligned_takeWhile (Alignment.tests_isAnyWord _)).bind fun _ _ _ => ?_
  refine aligned_typeName.bind_eq fun type => ?_
  refine aligned_expectName.bind fun t t' ht => ?_
  refine (aligned_eat _).bind_eq fun b => ?_
  -- a default value is passed over
  extract_lets tail tail'
  have htail : ∀ r, Aligned a (Parameter.Aligned a) (tail r) (tail' r) := by
    intro r
    refine aligned_last.bind fun l l' hl => ?_
    exact aligned_pure ⟨rfl, a.text_eq ht.1, a.cover hs hl⟩
  split
  · refine Aligned.bind_eq (aligned_skipTo Alignment.tests_isOpening ?_) htail
    exact Alignment.tests_isAnySymbol _
  · exact htail ()

theorem aligned_parameters (hg : g.Aligned a) :
    Aligned a (List.Forall₂ (Parameter.Aligned a)) (parameters g) (parameters g) := by
  refine (aligned_expect _).bind fun _ _ _ => ?_
  refine (aligned_eat _).bind_eq fun b => ?_
  split
  · exact aligned_pure .nil
  · refine (aligned_parameter hg).commaList.bind fun ps ps' hps => ?_
    exact (aligned_expect _).bind fun _ _ _ => aligned_pure hps

end Attributes

section Code

variable {g : CodeGrammar}

theorem Aligned.expressionBody {p : Parse Expr} (hp : Aligned a (Expr.Aligned a) p p) :
    Aligned a (Expr.Aligned a) (Parse.expressionBody p) (Parse.expressionBody p) := by
  refine aligned_cursor.bind fun c c' hc => ?_
  refine hp.observe.bind fun x x' hx => ?_
  refine (aligned_at _).bind_eq fun whole => ?_
  refine aligned_exceeded.bind_eq fun tooDeep => ?_
  -- an expression that cannot be read as a whole is passed over from its start
  extract_lets skipped skipped'
  have hskipped : Aligned a (Expr.Aligned a) skipped skipped' := by
    refine (aligned_rewind hc).bind_eq fun _ => ?_
    refine aligned_skipUntilSemicolon.bind_eq fun _ => ?_
    refine aligned_last.bind fun l l' hl => ?_
    exact aligned_pure (.unparsed (a.cover (a.place_of hc.peek) hl))
  cases hx with
  | ok h =>
    dsimp only
    split
    · exact aligned_pure h
    · exact hskipped
  | error h =>
    dsimp only
    split
    · exact aligned_throw h
    · exact hskipped

theorem aligned_methodOf (hg : g.Aligned a) {s s' : Span} (hs : a.place s s') (type : String)
    {t t' : Token} (ht : a.token t t' ∧ t.isName = true) (mods : List String) :
    Aligned a (MethodDecl.Aligned a) (methodOf g s type t mods) (methodOf g s' type t' mods) := by
  refine (aligned_parameters hg.grammar).bind fun ps ps' hps => ?_
  refine aligned_skipConstraints.bind_eq fun _ => ?_
  refine Aligned.bind (R := Option.Rel (MethodBody.Aligned a)) ?_ fun b b' hb => ?_
  · refine (aligned_at _).bind_eq fun b => ?_
    split
    · refine hg.statement.block.bind fun x x' hx => ?_
      exact aligned_pure (.some (.block hx.1 hx.2))
    · refine (aligned_eat _).bind_eq fun b => ?_
      split
      · refine hg.grammar.assignment.expressionBody.bind fun e e' he => ?_
        exact (aligned_expect _).bind fun _ _ _ => aligned_pure (.some (.expression he))
      · exact (aligned_expect _).bind fun _ _ _ => aligned_pure .none
  · refine aligned_last.bind fun l l' hl => ?_
    exact aligned_pure ⟨a.text_eq ht.1, rfl, hps, hb, rfl, a.span_of_name ht, a.cover hs hl⟩

/-! ## Fields -/

theorem Aligned.fieldInitializer {p : Parse Expr} (hp : Aligned a (Expr.Aligned a) p p) :
    Aligned a (Option.Rel (Expr.Aligned a)) (Parse.fieldInitializer p)
      (Parse.fieldInitializer p) := by
  refine aligned_cursor.bind fun c c' hc => ?_
  refine hp.observe.bind fun x x' hx => ?_
  refine (aligned_atAny _).bind_eq fun whole => ?_
  extract_lets skipped skipped'
  have hskipped : Aligned a (Option.Rel (Expr.Aligned a)) skipped skipped' := by
    refine (aligned_rewind hc).bind_eq fun _ => ?_
    refine Aligned.bind_eq (aligned_skipTo Alignment.tests_isOpening ?_) fun _ => ?_
    · exact Alignment.tests_isAnySymbol _
    · refine (aligned_atAny _).bind_eq fun b => ?_
      split
      · exact aligned_pure .none
      · exact aligned_expected _
  cases hx with
  | ok h =>
    dsimp only
    split
    · exact aligned_pure (.some h)
    · exact hskipped
  | error h => exact hskipped

theorem Aligned.fieldsWithin {p : Parse Expr} (hp : Aligned a (Expr.Aligned a) p p)
    (type : String) (isConst : Bool) (k : Nat) {t t' : Token} (ht : a.token t t') :
    Aligned a (List.Forall₂ (Member.Aligned a)) (Parse.fieldsWithin p type isConst k t)
      (Parse.fieldsWithin p type isConst k t') := by
  induction k generalizing t t' with
  | zero => exact aligned_expected _
  | succ k ih =>
    refine Aligned.bind (R := Option.Rel (Expr.Aligned a)) ?_ fun i i' hi => ?_
    · refine (aligned_eat _).bind_eq fun b => ?_
      split
      · exact hp.fieldInitializer
      · exact aligned_pure .none
    · refine aligned_last.bind fun l l' hl => ?_
      extract_lets field field'
      have hfield : field.Aligned a field' :=
        ⟨a.text_eq ht, rfl, rfl, hi, a.cover (a.place_of ht) hl⟩
      refine (aligned_eat _).bind_eq fun b => ?_
      split
      · refine aligned_expectName.bind fun u u' hu => ?_
        exact (ih hu.1).bind fun ms ms' hms => aligned_pure (.cons (.field hfield) hms)
      · exact aligned_pure (.cons (.field hfield) .nil)

theorem Aligned.fields {p : Parse Expr} (hp : Aligned a (Expr.Aligned a) p p) (type : String)
    (isConst : Bool) {t t' : Token} (ht : a.token t t') :
    Aligned a (List.Forall₂ (Member.Aligned a)) (Parse.fields p type isConst t)
      (Parse.fields p type isConst t') := by
  refine (aligned_bounded fun k => hp.fieldsWithin type isConst (k + 1) ht).bind
    fun ms ms' hms => ?_
  exact (aligned_expect _).bind fun _ _ _ => aligned_pure hms

/-! ## Classes -/

/-- Parts of class bodies that correspond. -/
structure ClassParts.Aligned (a : Alignment) (x x' : ClassParts) : Prop where
  members : List.Forall₂ (Member.Aligned a) x.members x'.members
  nested : List.Forall₂ (ClassDecl.Aligned a) x.nested x'.nested

/-- A reader of nested classes that reads aligned files alike. -/
def ClassParse.Aligned (a : Alignment) (p : ClassParse) : Prop :=
  ∀ {s s' : Span}, a.place s s' → ∀ {us us' : List AttributeUse},
    List.Forall₂ (AttributeUse.Aligned a) us us' → ∀ mods : List String,
      Parse.Aligned a (List.Forall₂ (ClassDecl.Aligned a)) (p s us mods) (p s' us' mods)

theorem aligned_memberNameWithin (k : Nat) {t t' : Token}
    (ht : a.token t t' ∧ t.isName = true) :
    Aligned a (fun t t' => a.token t t' ∧ t.isName = true) (memberNameWithin k t)
      (memberNameWithin k t') := by
  induction k generalizing t t' with
  | zero => exact aligned_pure ht
  | succ k ih =>
    refine (aligned_eat _).bind_eq fun b => ?_
    split
    · exact aligned_expectName.bind fun _ _ h => ih h
    · exact aligned_pure ht

theorem Aligned.skippedMember {s s' : Span} (hs : a.place s s') {p : Parse Unit}
    (hp : Aligned a Eq p p) :
    Aligned a (ClassParts.Aligned a) (Parse.skippedMember s p) (Parse.skippedMember s' p) := by
  refine hp.bind_eq fun _ => ?_
  refine aligned_last.bind fun l l' hl => ?_
  exact aligned_pure ⟨.cons (.other (a.cover hs hl)) .nil, .nil⟩

theorem aligned_typedMember (hg : g.Aligned a) {s s' : Span} (hs : a.place s s')
    (mods : List String) :
    Aligned a (ClassParts.Aligned a) (typedMember g s mods) (typedMember g s' mods) := by
  refine aligned_typeName.bind_eq fun type => ?_
  refine aligned_peek.bind fun t t' ht => ?_
  rw [← Alignment.isAnyWord_eq ht]
  split
  · exact aligned_skipMember.skippedMember hs
  · refine aligned_expectName.bind fun u u' hu => ?_
    refine (aligned_bounded fun k => aligned_memberNameWithin k hu).bind fun v v' hv => ?_
    refine (aligned_at _).bind_eq fun b => ?_
    extract_lets tail tail'
    have htail : ∀ r, Aligned a (ClassParts.Aligned a) (tail r) (tail' r) := by
      intro r
      refine (aligned_at _).bind_eq fun b => ?_
      split
      · refine (aligned_methodOf hg hs type hv mods).bind fun m m' hm => ?_
        exact aligned_pure ⟨.cons (.method hm) .nil, .nil⟩
      · refine (aligned_atAny _).bind_eq fun b => ?_
        split
        · exact aligned_skipMember.skippedMember hs
        · refine (hg.grammar.assignment.fields type _ hv.1).bind fun ms ms' hms => ?_
          exact aligned_pure ⟨hms, .nil⟩
    split
    · exact aligned_skipAngles.bind_eq htail
    · exact htail ()

theorem aligned_memberOfClass (hg : g.Aligned a) {nested : ClassParse}
    (hnested : nested.Aligned a) (className : String) :
    Aligned a (ClassParts.Aligned a) (memberOfClass g nested className)
      (memberOfClass g nested className) := by
  refine aligned_here.bind fun s s' hs => ?_
  refine (aligned_attributeLists hg.grammar).bind fun us us' hus => ?_
  refine aligned_modifiers.bind_eq fun mods => ?_
  refine aligned_peek.bind fun t t' ht => ?_
  refine (aligned_peekAt 1).bind fun u u' hu => ?_
  simp only [← Alignment.isAnyWord_eq ht, ← Alignment.isWord_eq ht, ← Alignment.isSymbol_eq ht,
    ← Alignment.isIdentifier_eq hu, ← Alignment.isSymbol_eq hu]
  -- nested classes are read, other nested types, events and constructors are not
  split
  · exact (hnested hs hus mods).bind fun ds ds' hds => aligned_pure ⟨.nil, hds⟩
  split
  · exact aligned_skipTypeBody.skippedMember hs
  split
  · exact aligned_skipMember.skippedMember hs
  split
  · exact aligned_advance.bind fun _ _ _ => aligned_skipMember.skippedMember hs
  · exact aligned_typedMember hg hs mods

theorem Aligned.membersWithin {p : Parse ClassParts} (hp : Aligned a (ClassParts.Aligned a) p p)
    (k : Nat) :
    Aligned a (ClassParts.Aligned a) (Parse.membersWithin p k) (Parse.membersWithin p k) := by
  induction k with
  | zero => exact (aligned_expect _).bind fun _ _ _ => aligned_pure ⟨.nil, .nil⟩
  | succ k ih =>
    refine (aligned_eat _).bind_eq fun b => ?_
    split
    · exact aligned_pure ⟨.nil, .nil⟩
    · refine aligned_peek.bind fun t t' ht => ?_
      rw [← Alignment.isEof_eq ht]
      split
      · exact aligned_expected _
      · refine hp.bind fun x x' hx => ?_
        refine ih.bind fun y y' hy => ?_
        exact aligned_pure ⟨List.rel_append hx.members hy.members,
          List.rel_append hx.nested hy.nested⟩

theorem aligned_baseType : Aligned a Eq baseType baseType := by
  refine aligned_typeName.bind_eq fun type => ?_
  refine (aligned_at _).bind_eq fun b => ?_
  split
  · exact aligned_skipGroup.bind fun _ _ _ => aligned_pure rfl
  · exact aligned_pure rfl

theorem aligned_classOf {member : String → Parse ClassParts}
    (hmember : ∀ name, Aligned a (ClassParts.Aligned a) (member name) (member name)) :
    ClassParse.Aligned a (classOf member) := by
  intro s s' hs us us' hus mods
  refine aligned_advance.bind fun t t' ht => ?_
  extract_lets named named'
  have hnamed : ∀ r, Aligned a (List.Forall₂ (ClassDecl.Aligned a)) (named r) (named' r) := by
    intro r
    refine aligned_expectName.bind fun u u' hu => ?_
    rw [← a.text_eq hu.1]
    refine (aligned_at _).bind_eq fun b => ?_
    -- type parameters and the parameters of a record are passed over
    extract_lets body header body' header'
    have hbody : ∀ r, Aligned a (List.Forall₂ (ClassDecl.Aligned a)) (body r) (body' r) := by
      intro r
      refine Aligned.bind_eq ?_ fun types => ?_
      · refine (aligned_eat _).bind_eq fun b => ?_
        split
        · exact aligned_baseType.commaList.mono fun _ _ h => List.forall₂_eq_eq_eq ▸ h
        · exact aligned_pure rfl
      refine aligned_skipConstraints.bind_eq fun _ => ?_
      refine Aligned.bind (R := ClassParts.Aligned a) ?_ fun x x' hx => ?_
      · refine (aligned_eat _).bind_eq fun b => ?_
        split
        · exact aligned_pure ⟨.nil, .nil⟩
        · refine (aligned_expect _).bind fun _ _ _ => ?_
          refine (aligned_bounded (hmember u.text).membersWithin).bind fun x x' hx => ?_
          exact (aligned_eat _).bind_eq fun _ => aligned_pure hx
      · refine aligned_last.bind fun l l' hl => ?_
        refine aligned_pure (.cons ?_ hx.nested)
        exact ⟨rfl, ⟨u, u', hu.1, hu.2, rfl⟩, hus, rfl, rfl, hx.members, a.span_of_name hu,
          a.cover hs hl⟩
    have hheader : ∀ r, Aligned a (List.Forall₂ (ClassDecl.Aligned a)) (header r) (header' r) := by
      intro r
      refine (aligned_at _).bind_eq fun b => ?_
      split
      · exact aligned_skipGroup.bind fun _ _ _ => hbody ()
      · exact hbody ()
    split
    · exact aligned_skipAngles.bind_eq hheader
    · exact hheader ()
  rw [← Alignment.isWord_eq ht]
  -- `record` may be followed by a second word
  split
  · refine (aligned_eatWord _).bind_eq fun b => ?_
    split
    · exact hnamed ()
    · exact (aligned_eatWord _).bind_eq fun _ => hnamed ()
  · exact hnamed ()

theorem aligned_classWithin (hg : g.Aligned a) (depth : Nat) :
    ClassParse.Aligned a (classWithin g depth) := by
  induction depth with
  | zero => exact fun _ _ _ _ _ => aligned_expected _
  | succ depth ih => exact aligned_classOf fun name => aligned_memberOfClass hg ih name

/-! ## Contents -/

theorem aligned_typeDeclaration (hg : g.Aligned a) :
    Aligned a (List.Forall₂ (ClassDecl.Aligned a)) (typeDeclaration g) (typeDeclaration g) := by
  refine aligned_here.bind fun s s' hs => ?_
  refine (aligned_attributeLists hg.grammar).bind fun us us' hus => ?_
  refine aligned_modifiers.bind_eq fun mods => ?_
  refine aligned_peek.bind fun t t' ht => ?_
  rw [← Alignment.isAnyWord_eq ht, ← Alignment.isAnyWord_eq ht, ← Alignment.isWord_eq ht]
  split
  · exact aligned_bounded fun k => aligned_classWithin hg k hs hus mods
  split
  · exact aligned_skipTypeBody.bind_eq fun _ => aligned_pure .nil
  split
  · exact aligned_skipPastSemicolon.bind_eq fun _ => aligned_pure .nil
  · exact aligned_expected _

theorem startsImport_eq {t t' u u' : Token} (ht : a.token t t') (hu : a.token u u') :
    startsImport t u = startsImport t' u' := by
  rw [startsImport, startsImport, Alignment.isAnyWord_eq ht, Alignment.isWord_eq ht,
    Alignment.isWord_eq hu]

theorem aligned_contentsWithin (hg : g.Aligned a) (k : Nat) (braced : Bool) :
    Aligned a (Contents.Aligned a) (contentsWithin g k braced) (contentsWithin g k braced) := by
  have hempty : Contents.Aligned a {} {} := ⟨rfl, .nil⟩
  induction k generalizing braced with
  | zero =>
    unfold contentsWithin
    split
    · exact (aligned_expect _).bind fun _ _ _ => aligned_pure hempty
    · exact aligned_pure hempty
  | succ k ih =>
    refine aligned_peek.bind fun t t' ht => ?_
    rw [← Alignment.isEof_eq ht, ← Alignment.isSymbol_eq ht]
    split
    · split
      · exact aligned_expected _
      · exact aligned_pure hempty
    split
    · exact aligned_advance.bind fun _ _ _ => aligned_pure hempty
    · refine (aligned_peekAt 1).bind fun u u' hu => ?_
      rw [← startsImport_eq ht hu]
      split
      · exact aligned_skipPastSemicolon.bind_eq fun _ => ih braced
      · -- a namespace for the rest of the file, a namespace in braces, or a type
        refine (aligned_eatWord _).bind_eq fun b => ?_
        split
        · refine aligned_qualifiedName.bind_eq fun name => ?_
          have hnamed : Contents.Aligned a { namespaceName := some name }
              { namespaceName := some name } := ⟨rfl, .nil⟩
          refine (aligned_eat _).bind_eq fun b => ?_
          split
          · exact (ih braced).bind fun x x' hx => aligned_pure (hnamed.append hx)
          · refine (aligned_expect _).bind fun _ _ _ => ?_
            refine (ih true).bind fun x x' hx => ?_
            refine (ih braced).bind fun y y' hy => ?_
            exact aligned_pure ((hnamed.append hx).append hy)
        · refine (aligned_typeDeclaration hg).bind fun ds ds' hds => ?_
          refine (ih braced).bind fun x x' hx => ?_
          exact aligned_pure (Contents.Aligned.append ⟨rfl, hds⟩ hx)

/-- The contents of aligned files correspond. -/
theorem aligned_contents (hg : g.Aligned a) :
    Aligned a (Contents.Aligned a) (contents g) (contents g) :=
  aligned_bounded fun k => aligned_contentsWithin hg k false

end Code

end Parse

end GatewayPolicy
