import GatewayPolicy.Proofs.Reading.Productions

/-! # What a parse collects

  Much of what is known about a file is known about the things of one sort that were read on
  the way from one cursor to another: the expressions of an argument list, the statements of
  a block, the members of a class. Such knowledge is put together in one way, whatever it is:
  tokens that are only taken add nothing, and two parses, one after the other, add what each
  of them adds.

  - `Gathers` are the relations that can be put together so.
  - `Parse.Collects` are the parses that keep to such a relation. It is a class, so that a
    production has it because its parts do.
  - `Cursor.Finds` is the relation that asks something of each thing for itself, and
    `Parse.Gives` says that a thing was read by a given parse.
-/

namespace GatewayPolicy

/-- A relation between two cursors and the things read between them that can be put together
    from one stretch of tokens to the next. -/
class Gathers {β : Type} (R : Cursor → Cursor → List β → Prop) : Prop where
  nil : ∀ {c d : Cursor}, c.Reaches d → R c d []
  append : ∀ {c d e : Cursor} {xs ys : List β}, R c d xs → R d e ys → R c e (xs ++ ys)

namespace Parse

/-- A parse whose things keep to a relation. -/
class Collects {α β : Type} (R : Cursor → Cursor → List β → Prop) (itemsOf : α → List β)
    (p : Parse α) : Prop where
  collects : ∀ {c d : Cursor} {n m : Nesting} {v : α}, p c n = .ok v d m → R c d (itemsOf v)

section Collects

variable {α β γ δ : Type} {R : Cursor → Cursor → List δ → Prop} {A : α → List δ} {B : β → List δ}
  {C : γ → List δ} {p q : Parse α} {f : α → Parse β} {b : Prop} [Decidable b]

instance [Collects R A p] [Collects R A q] : Collects R A (if b then p else q) := by
  split <;> infer_instance

instance (what : Expectation) : Collects R A (expected what) where
  collects h := by cases h

theorem collects_bounded {loop : Nat → Parse α} (h : ∀ k, Collects R A (loop k)) :
    Collects R A (bounded loop) where
  collects hloop := (h _).collects hloop

/-- A parse whose result has the things of another's. -/
theorem Collects.map (hp : Collects R A p) {r : α → β} (hr : ∀ v, B (r v) = A v) :
    Collects R B (do return r (← p)) where
  collects h := by
    obtain ⟨v, c', _, hv, h⟩ := bind_eq_ok h
    cases h
    rw [hr]
    exact hp.collects hv

variable [Gathers R]

/-- Tokens in front add nothing. -/
theorem Forward.bind_collects (hp : Forward p) (hf : ∀ v, Collects R B (f v)) :
    Collects R B (p >>= f) where
  collects h := by
    obtain ⟨v, c', _, hv, h⟩ := bind_eq_ok h
    rw [← List.nil_append (B _)]
    exact Gathers.append (Gathers.nil (hp.reaches hv)) ((hf v).collects h)

instance [hp : Forward p] [hf : ∀ v, Collects R B (f v)] : Collects R B (p >>= f) :=
  hp.bind_collects hf

theorem Forward.collects_nil (hp : Forward p) : Collects R (fun _ => []) p where
  collects h := Gathers.nil (hp.reaches h)

theorem collects_pure {v : α} (hv : A v = []) : Collects R A (Pure.pure v) where
  collects h := by
    cases h
    rw [hv]
    exact Gathers.nil (.refl _)

/-- Two parses, one after the other, whose things are put together. -/
theorem Collects.both (hp : Collects R A p) (hf : ∀ v, Collects R B (f v)) {r : α → β → γ}
    (hr : ∀ v w, C (r v w) = A v ++ B w) :
    Collects R C (do
      let v ← p
      return r v (← f v)) where
  collects h := by
    obtain ⟨v, c', _, hv, h⟩ := bind_eq_ok h
    obtain ⟨w, c'', _, hw, h⟩ := bind_eq_ok h
    cases h
    rw [hr]
    exact Gathers.append (hp.collects hv) ((hf v).collects hw)

/-- Tokens behind add nothing. -/
theorem Collects.before (hp : Collects R A p) {skip : α → Parse β} (hskip : ∀ v, Forward (skip v))
    {r : α → β → γ} (hr : ∀ v w, C (r v w) = A v) :
    Collects R C (do
      let v ← p
      return r v (← skip v)) :=
  hp.both (B := fun _ => []) (fun v => (hskip v).collects_nil) fun v w => by
    rw [hr, List.append_nil]

end Collects

/-! ## Lists -/

section Lists

variable {α δ : Type} {R : Cursor → Cursor → List δ → Prop} {A : α → List δ} {p : Parse α}

theorem collects_singleton (hp : Collects R A p) : Collects R (List.flatMap A) (do return [← p]) :=
  hp.map fun _ => List.flatMap_singleton ..

variable [Gathers R]

/-- An item, and more behind a comma. -/
theorem collects_cons {rest : Parse (List α)} (hp : Collects R A p)
    (hrest : Collects R (List.flatMap A) rest) :
    Collects R (List.flatMap A) (do
      let first ← p
      if ← eat .comma then return first :: (← rest)
      else return [first]) where
  collects h := by
    obtain ⟨first, c', _, hfirst, h⟩ := bind_eq_ok h
    obtain ⟨eaten, c'', _, heat, h⟩ := bind_eq_ok h
    have hhead := Gathers.append (hp.collects hfirst) (Gathers.nil (Forward.reaches heat))
    rw [List.append_nil] at hhead
    split at h
    · obtain ⟨vs, _, _, hvs, h⟩ := bind_eq_ok h
      cases h
      rw [List.flatMap_cons]
      exact Gathers.append hhead (hrest.collects hvs)
    · cases h
      rw [List.flatMap_singleton]
      exact hhead

theorem commaListWithin_collects (hp : Collects R A p) (k : Nat) :
    Collects R (List.flatMap A) (commaListWithin p k) := by
  induction k with
  | zero => exact collects_singleton hp
  | succ k ih => exact collects_cons hp ih

theorem commaList_collects (hp : Collects R A p) :
    Collects R (List.flatMap A) (commaList p) :=
  collects_bounded (commaListWithin_collects hp)

theorem itemsWithin_collects (hp : Collects R A p) (close : Symbol) (k : Nat) :
    Collects R (List.flatMap A) (itemsWithin close p k) := by
  have hnone : Collects R (List.flatMap A) (Pure.pure []) := collects_pure rfl
  have hone := collects_singleton hp
  induction k with
  | zero =>
    unfold itemsWithin
    infer_instance
  | succ k ih =>
    have hmore := collects_cons hp ih
    unfold itemsWithin
    infer_instance

theorem itemsUntil_collects (hp : Collects R A p) (close : Symbol) :
    Collects R (List.flatMap A) (itemsUntil close p) :=
  (collects_bounded (itemsWithin_collects hp close)).before (fun _ => inferInstance)
    (r := fun items _ => items) fun _ _ => rfl

end Lists

end Parse

/-! ## Expressions in brackets -/

/-- The expressions in the braces behind a new object. -/
def Initializer.parts : Initializer → List Expr
  | absent => []
  | fields fs => fs.map FieldValue.value
  | elements es => es

namespace Expr

/-- The parts of an expression that stand in no delimiters of its own. -/
def outer : Expr → List Expr
  | .member target _ _ _ => [target]
  | .call target _ _ _ => [target]
  | .index target _ _ => [target]
  | .lambda _ body _ => [body]
  | .unary _ operand _ => [operand]
  | .binary _ left right _ => [left, right]
  | .assign _ target value _ => [target, value]
  | .conditional condition whenTrue whenFalse _ => [condition, whenTrue, whenFalse]
  | .cast _ operand _ => [operand]
  | .object .. | .array .. | .paren .. => []
  | .literal _ | .name .. | .blockLambda .. | .typeOperator .. | .typeName .. | .unparsed _ => []

/-- The parts of an expression in parentheses, brackets or braces of its own. -/
def inner : Expr → List Expr
  | .call _ _ arguments _ => arguments.map Argument.value
  | .index _ arguments _ => arguments.map Argument.value
  | .object _ arguments braces _ => (arguments.getD []).map Argument.value ++ braces.parts
  | .array _ elements _ => elements
  | .paren inside _ => [inside]
  | .member .. | .lambda .. | .unary .. | .binary .. | .assign .. | .conditional .. | .cast .. => []
  | .literal _ | .name .. | .blockLambda .. | .typeOperator .. | .typeName .. | .unparsed _ => []

/-- The expressions directly inside an expression, in the order in which they are written. -/
def parts (e : Expr) : List Expr := e.outer ++ e.inner

end Expr

namespace Parse

section Expressions

variable {R : Cursor → Cursor → List Expr → Prop} [Gathers R] {g : Grammar} {value : Parse Expr}

theorem argument_collects (h : Collects R (fun e => [e]) g.assignment) (inAttribute : Bool) :
    Collects R (fun a => [a.value]) (argument g inAttribute) := by
  have hvalue : ∀ (start : Span) (name : Option String), Collects R (fun a => [a.value]) (do
      let value ← g.assignment
      return Argument.mk name value (start.cover (← last))) := by
    intro start name
    exact h.before (fun _ => inferInstance)
      (r := fun e s => Argument.mk name e (start.cover s)) fun _ _ => rfl
  unfold argument
  infer_instance

theorem commaList_argument_collects (h : Collects R (fun e => [e]) g.assignment)
    (inAttribute : Bool) :
    Collects R (List.map Argument.value) (commaList (argument g inAttribute)) := by
  have hvalues : List.flatMap (fun a : Argument => [a.value]) = List.map Argument.value :=
    funext fun _ => List.map_eq_flatMap.symm
  rw [← hvalues]
  exact commaList_collects (argument_collects h inAttribute)

theorem argumentList_collects (h : Collects R (fun e => [e]) g.assignment) :
    Collects R (List.map Argument.value) (argumentList g) := by
  have hnone : Collects R (List.map Argument.value) (Pure.pure []) := collects_pure rfl
  have hsome := commaList_argument_collects h false
  unfold argumentList
  apply Forward.bind_collects inferInstance
  intro _
  exact Collects.before inferInstance (fun _ => inferInstance)
    (r := fun arguments _ => arguments) fun _ _ => rfl

theorem fieldValue_collects (hvalue : Collects R (fun e => [e]) value) :
    Collects R (fun f => [f.value]) (fieldValue value) := by
  have hfield : ∀ name : Token, Collects R (fun f => [f.value]) (do
      let v ← value
      return FieldValue.mk name.text v (name.span.cover v.span)) :=
    fun name => hvalue.map fun _ => rfl
  unfold fieldValue
  infer_instance

theorem initializerOf_collects (hvalue : Collects R (fun e => [e]) value) :
    Collects R Initializer.parts (initializerOf value) := by
  have hempty : Collects R Initializer.parts (Pure.pure (.fields [])) := collects_pure rfl
  have hfields : Collects R Initializer.parts (do
      return .fields (← itemsUntil .closeBrace (fieldValue value))) :=
    (itemsUntil_collects (fieldValue_collects hvalue) _).map fun _ => List.map_eq_flatMap
  have helements : Collects R Initializer.parts (do
      return .elements (← itemsUntil .closeBrace value)) :=
    (itemsUntil_collects hvalue _).map fun es => (List.flatMap_singleton' es).symm
  unfold initializerOf
  infer_instance

theorem elements_collects (hvalue : Collects R (fun e => [e]) (initializerValue g))
    (close : Symbol) : Collects R (fun es => es) (elements g close) := by
  have hlist := itemsUntil_collects hvalue close
  have hvalues : List.flatMap (fun e : Expr => [e]) = fun es => es :=
    funext List.flatMap_singleton'
  rw [hvalues] at hlist
  exact hlist

/-- An array made of elements and of where reading has come. -/
theorem array_collects {items : Parse (List Expr)} (hitems : Collects R (fun es => es) items)
    (start : Span) (type : Option String) :
    Collects R Expr.parts (do
      let items ← items
      return .array type items (start.cover (← last))) :=
  hitems.before (fun _ => inferInstance)
    (r := fun items s => Expr.array type items (start.cover s)) fun _ _ => rfl

theorem newArray_collects (hvalue : Collects R (fun e => [e]) (initializerValue g)) (start : Span)
    (type : Option String) : Collects R Expr.parts (newArray g start type) := by
  have helements := elements_collects hvalue .closeBrace
  have hnone : Collects R (fun es : List Expr => es) (Pure.pure []) := collects_pure rfl
  have harray : Collects R Expr.parts (do
      let items ← (do if ← eat .openBrace then elements g .closeBrace else return [])
      return .array (type.map elementType) items (start.cover (← last))) :=
    array_collects inferInstance start _
  unfold newArray
  infer_instance

/-- The arguments of a new object come before what stands in its braces. -/
theorem newObject_collects (h : Collects R (fun e => [e]) g.assignment)
    (hvalue : Collects R (fun e => [e]) (initializerValue g)) (start : Span)
    (type : Option String) : Collects R Expr.parts (newObject g start type) where
  collects {c d n m e} h' := by
    obtain ⟨arguments, c₁, _, harguments, h'⟩ := bind_eq_ok h'
    have hlist : Collects R (fun as => (Option.getD as []).map Argument.value) (do
        if ← at? .openParen then return some (← argumentList g) else return none) := by
      have hsome : Collects R (fun as => (Option.getD as []).map Argument.value) (do
          return some (← argumentList g)) := (argumentList_collects h).map fun _ => rfl
      have hnone : Collects R (fun as => (Option.getD as []).map Argument.value)
          (Pure.pure none) := collects_pure rfl
      infer_instance
    have hfirst := hlist.collects harguments
    obtain ⟨_, _, _, hat, h'⟩ := bind_eq_ok h'
    cases hat
    split at h'
    · obtain ⟨braces, c₂, _, hbraces, h'⟩ := bind_eq_ok h'
      cases h'
      have hboth := Gathers.append hfirst ((initializerOf_collects hvalue).collects hbraces)
      exact hboth
    · -- without braces there are only the arguments
      extract_lets bare at h'
      have hbare : ∀ n', bare () c₁ n' = .ok e d m → R c d e.parts := by
        intro n' h'
        cases h'
        rw [← List.append_nil (List.map ..)] at hfirst
        exact hfirst
      split at h'
      · obtain ⟨_, _, _, hexpected, _⟩ := bind_eq_ok h'
        cases hexpected
      · exact hbare _ h'

theorem newExpression_collects (h : Collects R (fun e => [e]) g.assignment)
    (hvalue : Collects R (fun e => [e]) (initializerValue g)) :
    Collects R Expr.parts (newExpression g) := by
  have harray := fun start => array_collects (elements_collects hvalue .closeBrace) start none
  have hnewArray := newArray_collects hvalue
  have hnewObject := newObject_collects h hvalue
  unfold newExpression
  infer_instance

end Expressions

end Parse

/-! ## Things found one by one -/

/-- What fits a cursor fits all cursors in front of it. -/
class FitsBefore {β : Type} (F : Cursor → β → Prop) : Prop where
  of_reaches : ∀ {c d : Cursor} {x : β}, c.Reaches d → F d x → F c x

/-- Only tokens were taken between two cursors, and each thing fits the first of them. -/
def Cursor.Finds {β : Type} (F : Cursor → β → Prop) (c d : Cursor) (xs : List β) : Prop :=
  c.Reaches d ∧ ∀ x ∈ xs, F c x

instance {β : Type} {F : Cursor → β → Prop} [FitsBefore F] : Gathers (Cursor.Finds F) where
  nil h := ⟨h, List.forall_mem_nil _⟩
  append {c d e xs ys} hx hy := by
    refine ⟨hx.1.trans hy.1, ?_⟩
    intro x hmem
    rcases List.mem_append.1 hmem with hmem | hmem
    · exact hx.2 x hmem
    · -- a thing of the second stretch fits the first cursor too, which stands in front
      exact FitsBefore.of_reaches hx.1 (hy.2 x hmem)

instance {β : Type} {F G : Cursor → β → Prop} [FitsBefore F] [FitsBefore G] :
    FitsBefore fun c x => F c x ∨ G c x where
  of_reaches hreach h := h.imp (FitsBefore.of_reaches hreach) (FitsBefore.of_reaches hreach)

instance {β : Type} (P : β → Prop) : FitsBefore fun (_ : Cursor) x => P x where
  of_reaches _ h := h

/-- A thing has a property if it was read behind a cursor. -/
def Cursor.Ahead {β : Type} (start : Cursor) (P : β → Prop) (c : Cursor) (x : β) : Prop :=
  start.Reaches c → P x

instance {β : Type} (start : Cursor) (P : β → Prop) : FitsBefore (start.Ahead P) where
  of_reaches hreach h hstart := h (hstart.trans hreach)

namespace Parse

/-- A parse gives a thing somewhere behind a cursor. -/
def Gives {α : Type} (p : Parse α) (c : Cursor) (x : α) : Prop :=
  ∃ (c' d : Cursor) (n m : Nesting), c.Reaches c' ∧ p c' n = .ok x d m

instance {α : Type} (p : Parse α) : FitsBefore (Gives p) where
  of_reaches hreach h := by
    obtain ⟨c', d', n, m, hbehind, hread⟩ := h
    exact ⟨c', d', n, m, hreach.trans hbehind, hread⟩

section Finds

variable {α β γ δ : Type} {F G : Cursor → δ → Prop} {A : α → List δ} {B : β → List δ}
  {C : γ → List δ} {p : Parse α} {f : α → Parse β}

/-- Things that fit in one way, which implies another. -/
theorem Collects.weaken (hp : Collects (Cursor.Finds F) A p)
    (himp : ∀ {c x}, F c x → G c x) : Collects (Cursor.Finds G) A p where
  collects h := by
    obtain ⟨hreach, hall⟩ := hp.collects h
    exact ⟨hreach, fun x hx => himp (hall x hx)⟩

/-- Two parses whose things are put together in any order. -/
theorem Collects.both_subset [FitsBefore F] (hp : Collects (Cursor.Finds F) A p)
    (hf : ∀ v, Collects (Cursor.Finds F) B (f v)) {r : α → β → γ}
    (hr : ∀ v w, C (r v w) ⊆ A v ++ B w) :
    Collects (Cursor.Finds F) C (do
      let v ← p
      return r v (← f v)) where
  collects h := by
    obtain ⟨v, c', _, hv, h⟩ := bind_eq_ok h
    obtain ⟨w, c'', _, hw, h⟩ := bind_eq_ok h
    cases h
    obtain ⟨hreach, hall⟩ := Gathers.append (hp.collects hv) ((hf v).collects hw)
    exact ⟨hreach, fun x hx => hall x (hr v w hx)⟩

/-- Things that were found first may turn up again in what is read behind them. -/
theorem Collects.bind_found [FitsBefore F] (hp : Collects (Cursor.Finds F) A p)
    (hf : ∀ v, Collects (Cursor.Finds fun c x => F c x ∨ x ∈ A v) B (f v)) :
    Collects (Cursor.Finds F) B (p >>= f) where
  collects h := by
    obtain ⟨v, c', _, hv, h⟩ := bind_eq_ok h
    obtain ⟨hreach, hfound⟩ := hp.collects hv
    obtain ⟨hreach', hbehind⟩ := (hf v).collects h
    refine ⟨hreach.trans hreach', ?_⟩
    intro x hx
    rcases hbehind x hx with hx | hx
    · exact FitsBefore.of_reaches hreach hx
    · exact hfound x hx

end Finds

/-! ## Things with a property -/

section Ahead

variable {α β δ ε : Type} {start : Cursor} {P : δ → Prop} {Q : ε → Prop} {A : α → List δ}
  {B : β → List ε} {p : Parse α} {f : α → Parse β}

/-- What was read first has its property when the rest is read. -/
theorem Collects.bind_ahead (hp : Collects (Cursor.Finds (start.Ahead P)) A p)
    (hforward : ∀ v, Forward (f v))
    (hf : ∀ v, (∀ x ∈ A v, P x) → Collects (Cursor.Finds (start.Ahead Q)) B (f v)) :
    Collects (Cursor.Finds (start.Ahead Q)) B (p >>= f) where
  collects h := by
    obtain ⟨v, c', _, hv, h⟩ := bind_eq_ok h
    obtain ⟨hreach, hfound⟩ := hp.collects hv
    refine ⟨hreach.trans ((hforward v).reaches h), ?_⟩
    intro y hy hstart
    -- both stretches lie behind the start
    have hfirst : ∀ x ∈ A v, P x := fun x hx => hfound x hx hstart
    exact ((hf v hfirst).collects h).2 y hy (hstart.trans hreach)

/-- A value of which all things have the property. -/
theorem collects_of_all {v : β} (h : ∀ x ∈ B v, Q x) :
    Collects (Cursor.Finds (start.Ahead Q)) B (Pure.pure v) where
  collects hpure := by
    cases hpure
    exact ⟨.refl _, fun x hx _ => h x hx⟩

/-- What is given up has nothing. -/
theorem Collects.attempt {R : Cursor → Cursor → List δ → Prop} [Gathers R] (hp : Collects R A p) :
    Collects R (fun v => v.elim [] A) (attempt p) where
  collects h := by
    unfold Parse.attempt at h
    split at h
    · cases h
      exact hp.collects ‹_›
    · cases h
      exact Gathers.nil (.refl _)

end Ahead

end Parse

end GatewayPolicy
