import Mathlib.Logic.Relation
import GatewayPolicy.Proofs.Reading.Declarations
import GatewayPolicy.Proofs.Reading.Totality

/-! # Statements and expressions of a file

  The code in a file stands in the arguments of attributes, the values of fields and the
  bodies of methods. Each expression in it was read by the grammar, from a place in the file
  that reading came to and with as many levels of nesting as were left there, or it is a body
  that was skipped. A statement has inside it what its production read for it.

  - `Fragment` is a statement or an expression, and `SourceTree.fragments` lists those of a
    file that stand in no other.
  - `Fragment.Holds` says that a fragment stands in another one.
  - `FragmentInvariant` packages all ways to make a fragment, one field each, and
    `FragmentInvariant.of_parse` is the result: what holds of fragments however they are made
    holds of all fragments of a file.
-/

namespace GatewayPolicy

-- a production of many steps takes an instance for each of them
set_option synthInstance.maxSize 1024

/-- A statement or an expression. -/
inductive Fragment where
  | statement (s : Stmt)
  | expression (e : Expr)

/-- The fragments directly inside a statement, in the order in which they are written. -/
def Stmt.parts : Stmt → List Fragment
  | .block statements _ => statements.map .statement
  | .expression e _ => [.expression e]
  | .conditional condition thenBranch elseBranch _ =>
    .expression condition :: .statement thenBranch :: elseBranch.toList.map .statement
  | .declaration _ _ initializer _ => initializer.toList.map .expression
  | .other .. | .malformed .. => []

/-- The fragments directly inside a fragment. -/
def Fragment.parts : Fragment → List Fragment
  | statement s => s.parts
  | expression e => e.parts.map .expression

/-- The fragments of a body. -/
def MethodBody.fragments : MethodBody → List Fragment
  | block statements _ => statements.map .statement
  | expression e => [.expression e]

/-- The fragments of a declaration. -/
def Declared.fragments : Declared → List Fragment
  | applied a => a.arguments.map fun argument => .expression argument.value
  | field f => f.initializer.toList.map .expression
  | method m => m.body.toList.flatMap MethodBody.fragments

/-- The fragments of a file that stand in no other fragment. -/
def SourceTree.fragments (tree : SourceTree) : List Fragment :=
  tree.classes.flatMap fun c => c.declared.flatMap Declared.fragments

/-- A fragment stands in another one, or is the same. -/
def Fragment.Holds : Fragment → Fragment → Prop := Relation.ReflTransGen fun x y => y ∈ x.parts

/-- All expressions in a fragment have a property. -/
def Fragment.Throughout (P : Expr → Prop) (x : Fragment) : Prop :=
  ∀ e, x.Holds (.expression e) → P e

theorem Fragment.throughout_statement {P : Expr → Prop} {s : Stmt}
    (hparts : ∀ x ∈ s.parts, x.Throughout P) : (Fragment.statement s).Throughout P := by
  intro e he
  rcases he.cases_head with heq | ⟨part, hpart, hrest⟩
  · cases heq
  · exact hparts part hpart e hrest

theorem Fragment.throughout_expression {P : Expr → Prop} {e : Expr} (he : P e)
    (hparts : ∀ x ∈ e.parts, (Fragment.expression x).Throughout P) :
    (Fragment.expression e).Throughout P := by
  intro x hx
  rcases hx.cases_head with heq | ⟨part, hpart, hrest⟩
  · cases heq
    exact he
  · obtain ⟨part, hmem, rfl⟩ := List.mem_map.1 hpart
    exact hparts part hmem x hrest

/-- A fragment stands somewhere in a file. -/
def SourceTree.Has (tree : SourceTree) (y : Fragment) : Prop := ∃ x ∈ tree.fragments, x.Holds y

/-! ## Statements -/

namespace Parse

section Statements

variable {R : Cursor → Cursor → List Fragment → Prop} [Gathers R] {e : Parse Expr} {q : Parse Stmt}

instance (which : OtherStatement) (start : Span) : Collects R Stmt.parts (otherFrom which start) :=
  Forward.bind_collects inferInstance fun _ => collects_pure rfl

instance (which : OtherStatement) : Collects R Stmt.parts (jump which) := by
  unfold jump
  infer_instance

instance : Collects R Stmt.parts switchStatement := by
  unfold switchStatement
  infer_instance

instance (start : Span) : Collects R Stmt.parts (localFunction start) := by
  unfold localFunction
  infer_instance

section Skipped

variable [Forward q]

instance (which : OtherStatement) : Collects R Stmt.parts (guarded which q) := by
  unfold guarded
  infer_instance

instance : Collects R Stmt.parts (usingStatement q) := by
  unfold usingStatement
  infer_instance

instance : Collects R Stmt.parts (doStatement q) := by
  unfold doStatement
  infer_instance

instance : Collects R Stmt.parts (tryStatement q) := by
  unfold tryStatement
  infer_instance

end Skipped

theorem statementsWithin_collects (hq : Collects R (fun s => [.statement s]) (recovering q))
    (opening : Span) (k : Nat) :
    Collects R (List.map .statement) (statementsWithin opening q k) := by
  have hnone : Collects R (List.map .statement) (Pure.pure ([] : List Stmt)) := collects_pure rfl
  have hfail : ∀ fault, Collects R (List.map .statement) (throw fault : Parse (List Stmt)) :=
    fun _ => ⟨fun h => by cases h⟩
  induction k with
  | zero =>
    unfold statementsWithin
    infer_instance
  | succ k ih =>
    have hmore : Collects R (List.map .statement) (do
        let first ← recovering q
        return first :: (← statementsWithin opening q k)) :=
      hq.both (fun _ => ih) fun _ _ => rfl
    unfold statementsWithin
    infer_instance

theorem block_collects (hq : Collects R (fun s => [.statement s]) (recovering q)) :
    Collects R (fun r => r.1.map .statement) (block q) := by
  have hstatements : ∀ opening : Token, Collects R (List.map .statement)
      (bounded (statementsWithin opening.span q)) :=
    fun opening => collects_bounded (statementsWithin_collects hq opening.span)
  unfold block
  apply Forward.bind_collects inferInstance
  intro opening
  exact (hstatements opening).before (fun _ => inferInstance)
    (r := fun statements (close : Token) => (statements, opening.span.cover close.span))
    fun _ _ => rfl

theorem ifStatement_collects (he : Collects R (fun x => [.expression x]) e)
    (hq : Collects R (fun s => [.statement s]) (recovering q)) :
    Collects R Stmt.parts (ifStatement e q) := by
  have hnone : Collects R (fun s : Option Stmt => s.toList.map .statement) (Pure.pure none) :=
    collects_pure rfl
  have hsome : Collects R (fun s : Option Stmt => s.toList.map .statement) (do
      return some (← recovering q)) := hq.map fun _ => rfl
  have helse : Collects R (fun s : Option Stmt => s.toList.map .statement) (do
      if ← eatWord "else" then return some (← recovering q) else return none) := inferInstance
  unfold ifStatement
  apply Forward.bind_collects inferInstance
  intro start
  apply Forward.bind_collects inferInstance
  intro _
  apply Forward.bind_collects inferInstance
  intro _
  constructor
  intro c d n m s h
  -- the parts in the order in which they are read; the parenthesis adds none
  obtain ⟨condition, c₁, _, hcondition, h⟩ := bind_eq_ok h
  obtain ⟨_, c₂, _, hclose, h⟩ := bind_eq_ok h
  obtain ⟨thenBranch, c₃, _, hthen, h⟩ := bind_eq_ok h
  obtain ⟨elseBranch, c₄, _, helse', h⟩ := bind_eq_ok h
  cases h
  have hbranches := Gathers.append (hq.collects hthen) (helse.collects helse')
  have hbehind := Gathers.append (Gathers.nil (Forward.reaches hclose)) hbranches
  exact Gathers.append (he.collects hcondition) hbehind

theorem localDeclaration_collects [Forward e] (he : Collects R (fun x => [.expression x]) e) :
    Collects R Stmt.parts (localDeclaration e) := by
  have hvalue : Collects R (fun x : Option Expr => x.toList.map .expression) (do
      if ← eat .assign then return some (← e) else return none) := by
    have hnone : Collects R (fun x : Option Expr => x.toList.map .expression) (Pure.pure none) :=
      collects_pure rfl
    have hsome : Collects R (fun x : Option Expr => x.toList.map .expression) (do
        return some (← e)) := he.map fun _ => rfl
    infer_instance
  have hvariable : ∀ (start : Span) (type : String) (name : Token), Collects R Stmt.parts (do
      let initializer ← (do if ← eat .assign then return some (← e) else return none)
      if ← at? .comma then
        skipPastSemicolon
        return .malformed .severalVariables (start.cover (← last))
      else
        let stop ← expect .semicolon
        return .declaration type name.text initializer (start.cover stop.span)) := by
    intro start type name
    constructor
    intro c d n m s h
    have hreach : c.Reaches d := Forward.reaches h
    obtain ⟨initializer, c₁, _, hinitializer, h⟩ := bind_eq_ok h
    obtain ⟨_, _, _, hat, h⟩ := bind_eq_ok h
    cases hat
    split at h
    · -- a value in front of a comma is dropped
      obtain ⟨_, _, _, -, h⟩ := bind_eq_ok h
      cases h
      exact Gathers.nil hreach
    · obtain ⟨stop, _, _, hstop, h⟩ := bind_eq_ok h
      cases h
      have hend := Gathers.append (hvalue.collects hinitializer)
        (Gathers.nil (Forward.reaches hstop))
      rwa [List.append_nil] at hend
  unfold localDeclaration
  infer_instance

theorem plainStatement_collects [Forward e] (he : Collects R (fun x => [.expression x]) e) :
    Collects R Stmt.parts (plainStatement e) := by
  have hdeclaration := localDeclaration_collects he
  have hexpression : Collects R Stmt.parts (expressionStatement e) := by
    unfold expressionStatement
    apply Forward.bind_collects inferInstance
    intro start
    exact he.before (fun _ => inferInstance)
      (r := fun x (stop : Token) => Stmt.expression x (start.cover stop.span)) fun _ _ => rfl
  constructor
  intro c d n m s h
  -- an expression is only read where no declaration can be read
  obtain ⟨outcome, c', _, houtcome, h⟩ := bind_eq_ok h
  unfold attempt at houtcome
  split at houtcome
  · cases houtcome
    cases h
    exact hdeclaration.collects ‹_›
  · cases houtcome
    exact hexpression.collects h

/-- A statement has inside it what was read for it. -/
theorem statementOf_collects [Forward e] [Forward q]
    (he : Collects R (fun x => [.expression x]) e)
    (hq : Collects R (fun s => [.statement s]) (recovering q)) :
    Collects R Stmt.parts (statementOf e q) := by
  have hif := ifStatement_collects he hq
  have hplain := plainStatement_collects he
  have hblock : Collects R Stmt.parts (do
      let r ← block q
      return .block r.1 r.2) := (block_collects hq).map fun _ => rfl
  have hword : ∀ t next, Collects R Stmt.parts (wordStatement e q t next) := by
    intro t next
    unfold wordStatement
    split <;> infer_instance
  unfold statementOf
  infer_instance

end Statements

/-- A statement is what was read as one, or it was skipped. -/
theorem recovering_eq {q : Parse Stmt} {c d : Cursor} {n m : Nesting} {s : Stmt}
    (h : recovering q c n = .ok s d m) :
    (∃ m', q c n = .ok s d m') ∨ ∃ fault span, s = .malformed fault span := by
  obtain ⟨_, _, _, hcursor, h⟩ := bind_eq_ok h
  cases hcursor
  obtain ⟨outcome, c', _, houtcome, h⟩ := bind_eq_ok h
  unfold observe at houtcome
  split at houtcome
  · cases houtcome
    cases h
    exact .inl ⟨_, ‹_›⟩
  · cases houtcome
    obtain ⟨_, _, _, -, h⟩ := bind_eq_ok h
    split at h
    · obtain ⟨_, _, _, hthrow, _⟩ := bind_eq_ok h
      cases hthrow
    · obtain ⟨_, _, _, -, h⟩ := bind_eq_ok h
      obtain ⟨_, _, _, -, h⟩ := bind_eq_ok h
      cases h
      exact .inr ⟨_, _, rfl⟩

/-- A body is what was read as an expression, or it was skipped. -/
theorem expressionBody_eq {e : Parse Expr} {c d : Cursor} {n m : Nesting} {x : Expr}
    (h : expressionBody e c n = .ok x d m) :
    (∃ m', e c n = .ok x d m') ∨ ∃ span, x = .unparsed span := by
  rcases expressionBody_eq_ok h with ⟨hread, -⟩ | ⟨_, hskip⟩
  · exact .inl ⟨m, hread⟩
  · obtain ⟨_, _, _, -, hskip⟩ := bind_eq_ok hskip
    cases hskip
    exact .inr ⟨_, rfl⟩

/-- A body behind its arrow. -/
def arrowBody (e : Parse Expr) : Parse Expr := do
  let _ ← expect .arrow
  expressionBody e

theorem arrowBody_of_eat {e : Parse Expr} {c c' d : Cursor} {n n' m : Nesting} {x : Expr}
    (heat : eat .arrow c n = .ok true c' n') (h : expressionBody e c' n' = .ok x d m) :
    arrowBody e c n = .ok x d m := by
  unfold eat at heat
  split at heat
  · rename_i harrow
    cases heat
    show Parse.bind (expect .arrow) _ c n = _
    unfold Parse.bind expect
    rw [if_pos harrow]
    exact h
  · cases heat

end Parse

/-! ## What makes fragments -/

/-- What holds of a fragment, with so many levels of nesting left, however it is made. `start`
    is where reading began. -/
structure FragmentInvariant (start : Cursor) (P : Nat → Fragment → Prop) : Prop where
  expression : ∀ {levels : Nat} {c d : Cursor} {n m : Nesting} {e : Expr}, start.Reaches c →
    (Grammar.within levels).assignment c n = .ok e d m → P levels (.expression e)
  body : ∀ {levels : Nat} {c d : Cursor} {n m : Nesting} {e : Expr}, start.Reaches c →
    Parse.arrowBody (Grammar.within levels).assignment c n = .ok e d m → P levels (.expression e)
  statement : ∀ {levels : Nat} {s : Stmt}, (∀ x ∈ s.parts, P levels x) →
    P (levels + 1) (.statement s)
  malformed : ∀ {levels : Nat} {fault : SyntaxFault} {span : Span},
    P levels (.statement (.malformed fault span))

namespace FragmentInvariant

open Parse

variable {start : Cursor} {P : Nat → Fragment → Prop}

theorem assignment (h : FragmentInvariant start P) (levels : Nat) :
    Collects (Cursor.Finds (start.Ahead (P levels))) (fun e => [.expression e])
      (Grammar.within levels).assignment where
  collects hread := by
    have hforward := (Grammar.forward_within levels).assignment
    exact ⟨hforward.reaches hread,
      List.forall_mem_singleton.2 fun hstart => h.expression hstart hread⟩

theorem recovering (h : FragmentInvariant start P) {levels : Nat} {q : Parse Stmt} [Forward q]
    (hq : Collects (Cursor.Finds (start.Ahead (P levels))) (fun s => [.statement s]) q) :
    Collects (Cursor.Finds (start.Ahead (P levels))) (fun s => [.statement s])
      (recovering q) where
  collects hread := by
    rcases recovering_eq hread with ⟨m', hread⟩ | ⟨fault, span, rfl⟩
    · exact hq.collects hread
    · exact ⟨Forward.reaches hread, List.forall_mem_singleton.2 fun _ => h.malformed⟩

theorem forward_statementWithin (levels : Nat) : Forward (statementWithin levels) :=
  Delimits.forward (delimits_statementWithin levels)

theorem statementWithin (h : FragmentInvariant start P) (levels : Nat) :
    Collects (Cursor.Finds (start.Ahead (P levels))) (fun s => [.statement s])
      (statementWithin levels) := by
  induction levels with
  | zero => exact ⟨fun hread => by cases hread⟩
  | succ levels ih =>
    have hforward := (Grammar.forward_within levels).assignment
    have hstatement := forward_statementWithin levels
    -- what stands in a statement is read with one level less
    have hparts := statementOf_collects (h.assignment levels) (h.recovering ih)
    constructor
    intro c d n m s hread
    obtain ⟨hreach, hall⟩ := hparts.collects hread
    exact ⟨hreach, List.forall_mem_singleton.2 fun hstart =>
      h.statement fun x hx => hall x hx hstart⟩

theorem applied (h : FragmentInvariant start P) {levels : Nat} {a : AttributeUse}
    (hread : Gives (attributeUse (Grammar.within levels)) start a) :
    ∀ x ∈ (Declared.applied a).fragments, P levels x := by
  obtain ⟨c, d, n, m, hstart, hread⟩ := hread
  have hvalue : Collects (Cursor.Finds (start.Ahead fun e => P levels (.expression e)))
      (fun e => [e]) (Grammar.within levels).assignment := by
    constructor
    intro c d n m e hread
    have hforward := (Grammar.forward_within levels).assignment
    exact ⟨hforward.reaches hread,
      List.forall_mem_singleton.2 fun hstart => h.expression hstart hread⟩
  obtain ⟨-, hall⟩ := (attributeUse_collects hvalue).collects hread
  intro x hx
  obtain ⟨argument, hargument, rfl⟩ := List.mem_map.1 hx
  exact hall _ (List.mem_map_of_mem hargument) hstart

theorem method (h : FragmentInvariant start P) {levels : Nat} {method : MethodDecl}
    (hread : method.ReadBehind (.within levels) start) :
    ∀ x ∈ (Declared.method method).fragments, P levels x := by
  obtain ⟨first, hfirst, type, name, mods, c, d, n, m, hreach, hread⟩ := hread
  have hstart := hfirst.trans hreach
  have hforward : Grammar.Forward (CodeGrammar.within levels).toGrammar :=
    Grammar.forward_within levels
  have hstatement := forward_statementWithin levels
  obtain ⟨ps, c₁, _, hparameters, hread⟩ := bind_eq_ok hread
  obtain ⟨_, c₂, _, hconstraints, hread⟩ := bind_eq_ok hread
  have hstart := hstart.trans ((Forward.reaches hparameters).trans (Forward.reaches hconstraints))
  obtain ⟨body, c₃, _, hbody, hread⟩ := bind_eq_ok hread
  cases hread
  intro x hx
  -- a block, an expression behind an arrow, or no body at all
  obtain ⟨_, _, _, hat, hbody⟩ := bind_eq_ok hbody
  cases hat
  split at hbody
  · obtain ⟨r, _, _, hblock, hbody⟩ := bind_eq_ok hbody
    cases hbody
    obtain ⟨-, hall⟩ := (block_collects (h.recovering (h.statementWithin levels))).collects hblock
    exact hall x (by simpa [Declared.fragments, MethodBody.fragments] using hx) hstart
  obtain ⟨arrowed, c₄, _, heat, hbody⟩ := bind_eq_ok hbody
  cases arrowed with
  | true =>
    obtain ⟨value, _, _, hvalue, hbody⟩ := bind_eq_ok hbody
    obtain ⟨_, _, _, -, hbody⟩ := bind_eq_ok hbody
    cases hbody
    obtain rfl : x = .expression value := by
      simpa [Declared.fragments, MethodBody.fragments] using hx
    exact h.body hstart (arrowBody_of_eat heat hvalue)
  | false =>
    obtain ⟨_, _, _, -, hbody⟩ := bind_eq_ok hbody
    cases hbody
    cases hx

/-- All fragments of a file have what fragments have however they are made. -/
theorem of_parse {limit : Nat} {file : SourceFile} {tree : SourceTree} {ts : List Token}
    {stop : Place} (hparse : SourceTree.parseWithin limit file = .ok tree)
    (hscan : scan file.text = .ok (ts, stop))
    (h : FragmentInvariant (.start ts (stop.span [])) P) : ∀ x ∈ tree.fragments, P limit x := by
  obtain ⟨ts', stop', hscan', hread⟩ := SourceTree.declared_read hparse
  rw [hscan] at hscan'
  cases hscan'
  intro x hx
  obtain ⟨c, hc, hx⟩ := List.mem_flatMap.1 hx
  obtain ⟨declared, hdeclared, hx⟩ := List.mem_flatMap.1 hx
  have hbehind := hread c hc declared hdeclared
  cases declared with
  | applied a => exact h.applied hbehind x hx
  | field f =>
    obtain ⟨e, he, rfl⟩ := List.mem_map.1 hx
    obtain ⟨c', d, n, m, hstart, hvalue⟩ := hbehind e (Option.mem_toList.1 he)
    exact h.expression hstart hvalue
  | method method => exact h.method hbehind x hx

end FragmentInvariant

end GatewayPolicy
