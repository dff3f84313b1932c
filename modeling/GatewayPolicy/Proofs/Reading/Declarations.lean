import GatewayPolicy.Proofs.Reading.Collecting
import GatewayPolicy.Proofs.Reading.Loops

/-! # Declarations of a file

  Every attribute, field and method of a class in a file that parses was read by one
  production, from a place in the file that reading came to. What holds of each that is read
  so holds of all of them in the tree.

  - `Declared` is an attribute, a field or a method, and `ClassDecl.declared` lists those of
    a class.
  - `Declared.ReadBehind` says that one was read behind a cursor.
  - `SourceTree.declared_read` is the result, `SourceTree.methods_read` what it says of
    methods.
-/

namespace GatewayPolicy

-- a production of many steps takes an instance for each of them
set_option synthInstance.maxSize 1024

/-- What stands in a class or in front of it. -/
inductive Declared where
  | applied (a : AttributeUse)
  | field (field : FieldDecl)
  | method (method : MethodDecl)

/-- What a member declares. -/
def Member.declared : Member → List Declared
  | .field f => [.field f]
  | .method m => [.method m]
  | .other _ => []

/-- The attributes of a class, its fields and its methods. -/
def ClassDecl.declared (c : ClassDecl) : List Declared :=
  c.attributes.map .applied ++ c.members.flatMap Member.declared

/-- A method was read behind a cursor, as part of a declaration that starts at `start`. -/
def MethodDecl.ReadFrom (g : CodeGrammar) (start : Span) (c : Cursor) (method : MethodDecl) :
    Prop :=
  ∃ (type : String) (name : Token) (mods : List String) (c' d : Cursor) (n m : Nesting),
    c.Reaches c' ∧ Parse.methodOf g start type name mods c' n = .ok method d m

/-- A method was read behind a cursor, and so was the start of its declaration. -/
def MethodDecl.ReadBehind (g : CodeGrammar) (c : Cursor) (method : MethodDecl) : Prop :=
  ∃ first : Cursor, c.Reaches first ∧ method.ReadFrom g first.peek.span first

namespace Declared

/-- An attribute and the value of a field were read behind a cursor; a method fits it. -/
def Fits (g : CodeGrammar) (F : Cursor → MethodDecl → Prop) (c : Cursor) : Declared → Prop
  | applied a => Parse.Gives (Parse.attributeUse g.toGrammar) c a
  | field f => ∀ e ∈ f.initializer, Parse.Gives g.assignment c e
  | method m => F c m

/-- A declaration was read behind a cursor. -/
abbrev ReadBehind (g : CodeGrammar) (c : Cursor) (x : Declared) : Prop :=
  x.Fits g (MethodDecl.ReadBehind g) c

theorem Fits.imp {g : CodeGrammar} {F G : Cursor → MethodDecl → Prop} {c : Cursor} {x : Declared}
    (h : x.Fits g F c) (himp : ∀ {method}, F c method → G c method) : x.Fits g G c := by
  cases x with
  | applied _ => exact h
  | field _ => exact h
  | method method => exact himp h

end Declared

instance (g : CodeGrammar) (start : Span) : FitsBefore (MethodDecl.ReadFrom g start) where
  of_reaches hreach h := by
    obtain ⟨type, name, mods, c', d', n, m, hbehind, hread⟩ := h
    exact ⟨type, name, mods, c', d', n, m, hreach.trans hbehind, hread⟩

instance (g : CodeGrammar) : FitsBefore (MethodDecl.ReadBehind g) where
  of_reaches hreach h := by
    obtain ⟨first, hbehind, hread⟩ := h
    exact ⟨first, hreach.trans hbehind, hread⟩

instance (g : CodeGrammar) {F : Cursor → MethodDecl → Prop} [FitsBefore F] :
    FitsBefore (Declared.Fits g F) where
  of_reaches {c d x} hreach h := by
    cases x with
    | applied _ => exact FitsBefore.of_reaches (F := Parse.Gives _) hreach h
    | field _ => exact fun e he => FitsBefore.of_reaches hreach (h e he)
    | method _ => exact FitsBefore.of_reaches (F := F) hreach h

/-- A declaration fits a cursor, or it is one of the attributes that were read before. -/
def Declared.FitsWith (attributes : List AttributeUse) (F : Cursor → Declared → Prop)
    (c : Cursor) (x : Declared) : Prop :=
  F c x ∨ x ∈ attributes.flatMap fun a => [.applied a]

instance (attributes : List AttributeUse) {F : Cursor → Declared → Prop} [FitsBefore F] :
    FitsBefore (Declared.FitsWith attributes F) :=
  inferInstanceAs (FitsBefore fun c x => F c x ∨ x ∈ attributes.flatMap fun a => [.applied a])

namespace Parse

/-! ## Attributes -/

section Attributes

variable {δ : Type} {R : Cursor → Cursor → List δ → Prop} [Gathers R] {g : Grammar}
  {A : AttributeUse → List δ}

theorem attributesWithin_collects (h : Collects R A (attributeUse g)) (k : Nat) :
    Collects R (List.flatMap A) (attributesWithin g k) := by
  have hone := collects_singleton h
  induction k with
  | zero => exact hone
  | succ k ih =>
    constructor
    intro c d n m uses hread
    obtain ⟨first, c', _, hfirst, hread⟩ := bind_eq_ok hread
    obtain ⟨eaten, c'', _, heat, hread⟩ := bind_eq_ok hread
    have hhead := Gathers.append (h.collects hfirst) (Gathers.nil (Forward.reaches heat))
    rw [List.append_nil] at hhead
    split at hread
    · obtain ⟨_, _, _, hat, hread⟩ := bind_eq_ok hread
      cases hat
      split at hread
      · cases hread
        rw [List.flatMap_singleton]
        exact hhead
      · obtain ⟨rest, _, _, hrest, hread⟩ := bind_eq_ok hread
        cases hread
        rw [List.flatMap_cons]
        exact Gathers.append hhead (ih.collects hrest)
    · cases hread
      rw [List.flatMap_singleton]
      exact hhead

theorem attributeLists_collects (h : Collects R A (attributeUse g)) :
    Collects R (List.flatMap A) (attributeLists g) := by
  have hnone : Collects R (List.flatMap A) (Pure.pure []) := collects_pure rfl
  have hlist : Collects R (List.flatMap A) (bounded (attributesWithin g)) :=
    collects_bounded (attributesWithin_collects h)
  refine collects_bounded fun k => ?_
  induction k with
  | zero => exact hnone
  | succ k ih =>
    -- one bracket, and those behind it
    have hmore : Collects R (List.flatMap A) (do
        let attributes ← bounded (attributesWithin g)
        let _ ← expect .closeBracket
        return attributes ++ (← attributeListsWithin g k)) := by
      constructor
      intro c d n m uses hread
      obtain ⟨attributes, c', _, hattributes, hread⟩ := bind_eq_ok hread
      obtain ⟨_, c'', _, hclose, hread⟩ := bind_eq_ok hread
      obtain ⟨rest, _, _, hrest, hread⟩ := bind_eq_ok hread
      cases hread
      have hhead := Gathers.append (hlist.collects hattributes)
        (Gathers.nil (Forward.reaches hclose))
      rw [List.append_nil] at hhead
      rw [List.flatMap_append]
      exact Gathers.append hhead (ih.collects hrest)
    unfold attributeListsWithin
    infer_instance

theorem attributeUse_collects {R : Cursor → Cursor → List Expr → Prop} [Gathers R]
    (h : Collects R (fun e => [e]) g.assignment) :
    Collects R (fun a => a.arguments.map Argument.value) (attributeUse g) := by
  have hsome := commaList_argument_collects h true
  have hnone : Collects R (List.map Argument.value) (Pure.pure []) := collects_pure rfl
  have hgroup : Collects R (List.map Argument.value) (do
      let arguments ← (do
        if ← at? .closeParen then return [] else commaList (argument g true))
      let _ ← expect .closeParen
      return arguments) :=
    Collects.before inferInstance (fun _ => inferInstance) (r := fun arguments _ => arguments)
      fun _ _ => rfl
  have huse : ∀ (start : Span) (name : String),
      Collects R (fun a => a.arguments.map Argument.value) (do
        let arguments ← (do
          if ← eat .openParen then
            let arguments ← (do
              if ← at? .closeParen then return [] else commaList (argument g true))
            let _ ← expect .closeParen
            return arguments
          else return [])
        return ({ name, arguments, span := start.cover (← last) } : AttributeUse)) :=
    fun start name => Collects.before (A := List.map Argument.value) inferInstance
      (fun _ => inferInstance)
      (r := fun arguments s => AttributeUse.mk name arguments (start.cover s)) fun _ _ => rfl
  unfold attributeUse
  infer_instance

end Attributes

/-! ## Classes -/

/-- All that is declared in a class body, in nested classes as well. -/
def ClassParts.declared (parts : ClassParts) : List Declared :=
  parts.members.flatMap Member.declared ++ parts.nested.flatMap ClassDecl.declared

section Bodies

variable {F : Cursor → Declared → Prop} [FitsBefore F]

theorem membersWithin_collects {member : Parse ClassParts}
    (hmember : Collects (Cursor.Finds F) ClassParts.declared member) (k : Nat) :
    Collects (Cursor.Finds F) ClassParts.declared (membersWithin member k) := by
  have hempty : Collects (Cursor.Finds F) ClassParts.declared (Pure.pure {}) := collects_pure rfl
  induction k with
  | zero =>
    unfold membersWithin
    infer_instance
  | succ k ih =>
    have hboth : Collects (Cursor.Finds F) ClassParts.declared (do
        let first ← member
        return first.append (← membersWithin member k)) := by
      apply hmember.both_subset fun _ => ih
      intro v w x hx
      simp only [ClassParts.declared, ClassParts.append, List.flatMap_append,
        List.mem_append] at hx ⊢
      tauto
    unfold membersWithin
    infer_instance

omit [FitsBefore F] in
/-- A class has its attributes from in front of it. -/
theorem classBody_collects {parts : Parse ClassParts} {attributes : List AttributeUse}
    (hparts : Collects (Cursor.Finds F) ClassParts.declared parts)
    (declare : List Member → Span → ClassDecl)
    (hattributes : ∀ members span, (declare members span).attributes = attributes)
    (hmembers : ∀ members span, (declare members span).members = members) :
    Collects (Cursor.Finds (Declared.FitsWith attributes F)) (List.flatMap ClassDecl.declared) (do
        let parts ← parts
        return declare parts.members (← last) :: parts.nested) where
  collects h := by
    obtain ⟨parts, c', _, hparts', h⟩ := bind_eq_ok h
    obtain ⟨span, _, _, hlast, h⟩ := bind_eq_ok h
    cases hlast
    cases h
    obtain ⟨hreach, hall⟩ := hparts.collects hparts'
    refine ⟨hreach, ?_⟩
    intro x hx
    rw [List.flatMap_cons, ClassDecl.declared, hattributes, hmembers, List.append_assoc,
      List.mem_append, List.map_eq_flatMap] at hx
    exact hx.symm.imp_left (hall x)

theorem classOf_collects {member : String → Parse ClassParts}
    (hmember : ∀ name, Collects (Cursor.Finds F) ClassParts.declared (member name)) (start : Span)
    (attributes : List AttributeUse) (mods : List String) :
    Collects (Cursor.Finds (Declared.FitsWith attributes F)) (List.flatMap ClassDecl.declared)
      (classOf member start attributes mods) := by
  have hempty : Collects (Cursor.Finds F) ClassParts.declared (Pure.pure {}) := collects_pure rfl
  have hmembers : ∀ name, Collects (Cursor.Finds F) ClassParts.declared (do
      let parts ← bounded (membersWithin (member name))
      let _ ← eat .semicolon
      return parts) := fun name =>
    (collects_bounded (membersWithin_collects (hmember name))).before (fun _ => inferInstance)
      (r := fun parts _ => parts) fun _ _ => rfl
  have hclass : ∀ (name : Token) (baseTypes : List String), Collects
      (Cursor.Finds (Declared.FitsWith attributes F)) (List.flatMap ClassDecl.declared) (do
        let parts ← (do
          if ← eat .semicolon then return {}
          else
            let _ ← expect .openBrace
            let parts ← bounded (membersWithin (member name.text))
            let _ ← eat .semicolon
            return parts)
        return ({ name := name.text, attributes, modifiers := mods, baseTypes,
                  members := parts.members, nameSpan := name.span,
                  span := start.cover (← last) } : ClassDecl) :: parts.nested) := by
    intro name baseTypes
    exact classBody_collects inferInstance
      (fun members span =>
        { name := name.text, attributes, modifiers := mods, baseTypes, members,
          nameSpan := name.span, span := start.cover span })
      (fun _ _ => rfl) fun _ _ => rfl
  unfold classOf
  apply Forward.bind_collects inferInstance
  intro keyword
  extract_lets named
  have hnamed : ∀ r, Collects (Cursor.Finds (Declared.FitsWith attributes F))
      (List.flatMap ClassDecl.declared) (named r) := by
    intro r
    apply Forward.bind_collects inferInstance
    intro name
    infer_instance
  -- records and classes go on in the same way, so that way need not be opened again
  clear_value named
  infer_instance

end Bodies

section Members

variable {g : CodeGrammar} [Grammar.Forward g.toGrammar] {F : Cursor → MethodDecl → Prop}
  [FitsBefore F]

/-- A class behind its attributes. -/
theorem attributeLists_bind {α : Type} {A : α → List Declared} {f : List AttributeUse → Parse α}
    (hf : ∀ attributes, Collects
      (Cursor.Finds (Declared.FitsWith attributes (Declared.Fits g F))) A (f attributes)) :
    Collects (Cursor.Finds (Declared.Fits g F)) A (attributeLists g.toGrammar >>= f) := by
  refine Collects.bind_found (attributeLists_collects ?_) hf
  constructor
  intro c d n m a h
  exact ⟨Forward.reaches h, List.forall_mem_singleton.2 ⟨c, d, n, m, .refl c, h⟩⟩

/-- The value of a field was read as an expression, or there is none. -/
theorem fieldInitializer_collects {expression : Parse Expr} [Forward expression] :
    Collects (Cursor.Finds (Gives expression)) Option.toList (fieldInitializer expression) where
  collects {c d n m v} h := by
    have hreach : c.Reaches d := Forward.reaches h
    refine ⟨hreach, ?_⟩
    intro e he
    obtain rfl := Option.mem_toList.1 he
    rcases fieldInitializer_eq_ok h with ⟨_, hv, hread⟩ | ⟨hv, -⟩
    · cases hv
      exact ⟨c, d, n, m, .refl c, hread⟩
    · cases hv

theorem fieldsWithin_collects (type : String) (isConst : Bool) (k : Nat) (name : Token) :
    Collects (Cursor.Finds (Declared.Fits g F)) (List.flatMap Member.declared)
      (fieldsWithin g.assignment type isConst k name) := by
  induction k generalizing name with
  | zero =>
    unfold fieldsWithin
    infer_instance
  | succ k ih =>
    constructor
    intro c d n m members h
    obtain ⟨initializer, c₁, _, hinitializer, h⟩ := bind_eq_ok h
    obtain ⟨span, _, _, hlast, h⟩ := bind_eq_ok h
    cases hlast
    have hnone : Collects (Cursor.Finds (Gives g.assignment)) Option.toList
        (Pure.pure (none : Option Expr)) := collects_pure rfl
    have hvalue : Collects (Cursor.Finds (Gives g.assignment)) Option.toList
        (fieldInitializer g.assignment) := fieldInitializer_collects
    obtain ⟨hreach, hvalues⟩ : Cursor.Finds (Gives g.assignment) c c₁ initializer.toList :=
      Collects.collects hinitializer
    have hfield : c.Finds (Declared.Fits g F) c₁ [.field {
        name := name.text, type, isConst, initializer, span := name.span.cover c₁.last }] :=
      ⟨hreach, List.forall_mem_singleton.2 fun e he => hvalues e (Option.mem_toList.2 he)⟩
    obtain ⟨eaten, c₂, _, heat, h⟩ := bind_eq_ok h
    have hhead := Gathers.append hfield (Gathers.nil (Forward.reaches heat))
    split at h
    · obtain ⟨next, c₃, _, hnext, h⟩ := bind_eq_ok h
      obtain ⟨rest, _, _, hrest, h⟩ := bind_eq_ok h
      cases h
      exact Gathers.append hhead
        (Gathers.append (Gathers.nil (Forward.reaches hnext)) ((ih next).collects hrest))
    · cases h
      exact hhead

theorem fields_collects (type : String) (isConst : Bool) (first : Token) :
    Collects (Cursor.Finds (Declared.Fits g F)) (List.flatMap Member.declared)
      (fields g.assignment type isConst first) :=
  (collects_bounded fun k => fieldsWithin_collects type isConst (k + 1) first).before
    (fun _ => inferInstance) (r := fun members _ => members) fun _ _ => rfl

instance skippedMember_collects (start : Span) {skip : Parse Unit} [Forward skip] :
    Collects (Cursor.Finds (Declared.Fits g F)) ClassParts.declared (skippedMember start skip) where
  collects h := by
    have hreach := Forward.reaches h
    obtain ⟨_, _, _, hskip, h⟩ := bind_eq_ok h
    cases h
    exact ⟨hreach, List.forall_mem_nil _⟩

variable [Forward g.statement]

theorem methodOf_collects (start : Span) (type : String) (name : Token) (mods : List String) :
    Collects (Cursor.Finds (Declared.Fits g (MethodDecl.ReadFrom g start)))
      (fun m => [.method m]) (methodOf g start type name mods) where
  collects {c d n m _} h :=
    ⟨Forward.reaches h,
      List.forall_mem_singleton.2 ⟨type, name, mods, c, d, n, m, .refl c, h⟩⟩

theorem typedMember_collects (start : Span) (mods : List String) :
    Collects (Cursor.Finds (Declared.Fits g (MethodDecl.ReadFrom g start))) ClassParts.declared
      (typedMember g start mods) := by
  have hmethod : ∀ type name,
      Collects (Cursor.Finds (Declared.Fits g (MethodDecl.ReadFrom g start))) ClassParts.declared
        (do return ({ members := [.method (← methodOf g start type name mods)] } : ClassParts)) :=
    fun type name => (methodOf_collects start type name mods).map fun _ => rfl
  have hfields : ∀ type isConst first,
      Collects (Cursor.Finds (Declared.Fits g (MethodDecl.ReadFrom g start))) ClassParts.declared
        (do return ({ members := ← fields g.assignment type isConst first } : ClassParts)) :=
    fun type isConst first =>
      (fields_collects type isConst first).map fun _ => List.append_nil _
  unfold typedMember
  infer_instance

theorem memberOfClass_collects {nested : ClassParse}
    (hnested : ∀ start attributes mods, Collects
      (Cursor.Finds (Declared.FitsWith attributes (Declared.ReadBehind g)))
      (List.flatMap ClassDecl.declared) (nested start attributes mods))
    (className : String) :
    Collects (Cursor.Finds (Declared.ReadBehind g)) ClassParts.declared
      (memberOfClass g nested className) where
  collects {c d n m v} h := by
    obtain ⟨_, _, _, hstart, h⟩ := bind_eq_ok h
    cases hstart
    -- a method starts here, or it is one of a nested class
    let Here := fun (c' : Cursor) (m : MethodDecl) =>
      m.ReadFrom g c.peek.span c' ∨ m.ReadBehind g c'
    have hclass : ∀ attributes mods, Collects
        (Cursor.Finds (Declared.FitsWith attributes (Declared.Fits g Here)))
        ClassParts.declared (do
          return ({ nested := ← nested c.peek.span attributes mods } : ClassParts)) :=
      fun attributes mods => ((hnested _ attributes mods).weaken
        (Or.imp_left fun h => h.imp Or.inr)).map fun _ => rfl
    have htyped : ∀ attributes mods, Collects
        (Cursor.Finds (Declared.FitsWith attributes (Declared.Fits g Here)))
        ClassParts.declared (typedMember g c.peek.span mods) :=
      fun _ mods => (typedMember_collects _ mods).weaken fun h => .inl (h.imp Or.inl)
    have hskipped : ∀ attributes {skip : Parse Unit} [Forward skip], Collects
        (Cursor.Finds (Declared.FitsWith attributes (Declared.Fits g Here)))
        ClassParts.declared (skippedMember c.peek.span skip) :=
      fun _ => (skippedMember_collects (F := Here) _).weaken Or.inl
    obtain ⟨hreach, hall⟩ : c.Finds (Declared.Fits g Here) d v.declared :=
      (attributeLists_bind fun attributes => inferInstance).collects h
    refine ⟨hreach, fun x hx => (hall x hx).imp ?_⟩
    rintro method (hread | hread)
    · exact ⟨c, .refl c, hread⟩
    · exact hread

theorem classWithin_collects (depth : Nat) (start : Span) (attributes : List AttributeUse)
    (mods : List String) :
    Collects
      (Cursor.Finds (Declared.FitsWith attributes (Declared.ReadBehind g)))
      (List.flatMap ClassDecl.declared) (classWithin g depth start attributes mods) := by
  induction depth generalizing start attributes mods with
  | zero =>
    unfold classWithin
    infer_instance
  | succ depth ih => exact classOf_collects (fun name => memberOfClass_collects ih name) _ _ _

end Members

/-! ## Files -/

section Files

variable {g : CodeGrammar} [Grammar.Forward g.toGrammar] [Forward g.statement]

/-- All that is declared in a file. -/
def declaredIn (contents : Contents) : List Declared := contents.classes.flatMap ClassDecl.declared

theorem typeDeclaration_collects :
    Collects (Cursor.Finds (Declared.ReadBehind g)) (List.flatMap ClassDecl.declared)
      (typeDeclaration g) := by
  have hclass : ∀ start attributes mods, Collects
      (Cursor.Finds (Declared.FitsWith attributes (Declared.ReadBehind g)))
      (List.flatMap ClassDecl.declared) (bounded (classWithin g · start attributes mods)) :=
    fun start attributes mods =>
      collects_bounded fun depth => classWithin_collects depth start attributes mods
  have hempty : ∀ attributes : List AttributeUse, Collects
      (Cursor.Finds (Declared.FitsWith attributes (Declared.ReadBehind g)))
      (List.flatMap ClassDecl.declared) (Pure.pure []) := fun _ => collects_pure rfl
  unfold typeDeclaration
  apply Forward.bind_collects inferInstance
  intro start
  exact attributeLists_bind fun attributes => inferInstance

theorem contentsWithin_collects (k : Nat) (braced : Bool) :
    Collects (Cursor.Finds (Declared.ReadBehind g)) declaredIn (contentsWithin g k braced) := by
  have hempty : Collects (Cursor.Finds (Declared.ReadBehind g)) declaredIn (Pure.pure {}) :=
    collects_pure rfl
  have happend : ∀ a b : Contents, declaredIn (a.append b) = declaredIn a ++ declaredIn b := by
    intro a b
    simp [Contents.append, declaredIn]
  induction k generalizing braced with
  | zero =>
    unfold contentsWithin
    infer_instance
  | succ k ih =>
    -- declarations in a namespace, in the braces of one, and outside
    have hnamed : ∀ name : String,
        Collects (Cursor.Finds (Declared.ReadBehind g)) declaredIn (do
          let behind ← contentsWithin g k braced
          return ({ namespaceName := some name } : Contents).append behind) := by
      intro name
      apply (ih braced).map
      intro contents
      rw [happend]
      rfl
    have hinside : ∀ name : String,
        Collects (Cursor.Finds (Declared.ReadBehind g)) declaredIn (do
          let inside ← contentsWithin g k true
          let behind ← contentsWithin g k braced
          return (({ namespaceName := some name } : Contents).append inside).append behind) := by
      intro name
      apply (ih true).both fun _ => ih braced
      intro inside behind
      rw [happend, happend]
      rfl
    have hclasses : Collects (Cursor.Finds (Declared.ReadBehind g)) declaredIn (do
        let classes ← typeDeclaration g
        let behind ← contentsWithin g k braced
        return ({ classes } : Contents).append behind) := by
      apply typeDeclaration_collects.both fun _ => ih braced
      intro classes behind
      rw [happend]
      rfl
    unfold contentsWithin
    infer_instance

end Files

end Parse

theorem CodeGrammar.delimits_within (limit : Nat) :
    Parse.Delimits (CodeGrammar.within limit).statement :=
  Parse.delimits_statementWithin limit

/-- A method of a class is one of its members. -/
theorem ClassDecl.mem_methods {c : ClassDecl} {method : MethodDecl} :
    method ∈ c.methods ↔ .method method ∈ c.members := by
  unfold ClassDecl.methods
  rw [List.mem_filterMap]
  constructor
  · rintro ⟨member, hmember, heq⟩
    cases member <;> simp_all
  · exact fun h => ⟨_, h, rfl⟩

/-- All that the classes of a file declare was read behind its start. -/
theorem SourceTree.declared_read {limit : Nat} {file : SourceFile} {tree : SourceTree}
    (h : SourceTree.parseWithin limit file = .ok tree) :
    ∃ ts stop, scan file.text = .ok (ts, stop) ∧
      ∀ c ∈ tree.classes, ∀ x ∈ c.declared,
        x.ReadBehind (.within limit) (.start ts (stop.span [])) := by
  unfold SourceTree.parseWithin SourceTree.parseBy at h
  cases hscan : scan file.text with
  | error e =>
    rw [hscan] at h
    cases h
  | ok r =>
    obtain ⟨ts, stop⟩ := r
    rw [hscan] at h
    dsimp only at h
    split at h
    · cases h
    · rename_i contents d m hcontents
      split at h
      · cases h
      · cases h
        have hforward : Grammar.Forward (CodeGrammar.within limit).toGrammar :=
          Grammar.forward_within limit
        have hstatement : Parse.Forward (CodeGrammar.within limit).statement :=
          Parse.Delimits.forward (CodeGrammar.delimits_within limit)
        obtain ⟨-, hall⟩ := (Parse.contentsWithin_collects _ _).collects hcontents
        exact ⟨ts, stop, rfl, fun c hc x hx => hall x (List.mem_flatMap.2 ⟨c, hc, hx⟩)⟩

/-- Every method of a file was read behind its start. -/
theorem SourceTree.methods_read {limit : Nat} {file : SourceFile} {tree : SourceTree}
    (h : SourceTree.parseWithin limit file = .ok tree) :
    ∃ ts stop, scan file.text = .ok (ts, stop) ∧
      ∀ c ∈ tree.classes, ∀ method ∈ c.methods,
        method.ReadBehind (.within limit) (.start ts (stop.span [])) := by
  obtain ⟨ts, stop, hscan, hall⟩ := SourceTree.declared_read h
  refine ⟨ts, stop, hscan, ?_⟩
  intro c hc method hmethod
  have hmember := ClassDecl.mem_methods.1 hmethod
  exact hall c hc (.method method)
    (List.mem_append_right _ (List.mem_flatMap.2 ⟨_, hmember, List.mem_singleton_self _⟩))

end GatewayPolicy
