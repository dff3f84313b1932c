import GatewayPolicy.Policy.Draft

/-! # Statements leave what is there

  A draft only grows. A statement puts nodes behind those of the open element
  and diagnostics behind those of the document, and the only names it may bind
  are those that it declares.

  - `Stmt.declared` lists the names that a statement declares, at any depth.
  - `Draft.Extends` is the frame: all that a later draft has in common with an
    earlier one. Every step of a draft keeps it, also the step that adds a child
    which was filled on its own (`Draft.adopt_extends`), and so do all runs of
    steps.
  - `Draft.addStatement_extends` is the result.
-/

namespace GatewayPolicy

/-! ## Declared names -/

mutual

/-- The names that local declarations inside a statement declare. -/
def Stmt.declared : Stmt → List String
  | .declaration _ name _ _ => [name]
  | .block statements _ => declaredInAll statements
  | .conditional _ thenBranch elseBranch _ => thenBranch.declared ++ declaredInElse elseBranch
  | .expression .. | .other .. | .malformed .. => []

/-- The names declared in a branch that may be missing. -/
def declaredInElse : Option Stmt → List String
  | none => []
  | some s => s.declared

/-- The names declared in some statements. -/
def declaredInAll : List Stmt → List String
  | [] => []
  | s :: ss => s.declared ++ declaredInAll ss

end

/-! ## Lookups -/

namespace Bindings

theorem lookup?_append (b c : Bindings) (name : String) :
    (b ++ c).lookup? name = (b.lookup? name).or (c.lookup? name) := by
  simp only [lookup?, List.find?_append]
  cases b.find? (·.1 == name) <;> rfl

theorem lookup?_eq_none {b : Bindings} {name : String} :
    b.lookup? name = none ↔ ∀ x ∈ b, x.1 ≠ name := by
  simp [lookup?]

/-- Bindings of other names in front do not hide a name. -/
theorem lookup?_append_of_absent {b : Bindings} (c : Bindings) {name : String}
    (h : ∀ x ∈ b, x.1 ≠ name) : (b ++ c).lookup? name = c.lookup? name := by
  rw [lookup?_append, lookup?_eq_none.mpr h, Option.none_or]

end Bindings

/-! ## Drafts -/

namespace Draft

/-- What a later draft keeps of an earlier one, when only the listed names may
    have been bound in between. -/
structure Extends (names : List String) (d later : Draft) : Prop where
  name : later.element.name = d.element.name
  attributes : later.element.attributes = d.element.attributes
  children : d.element.children <+: later.element.children
  enclosing : later.enclosing = d.enclosing
  diagnostics : d.diagnostics <+: later.diagnostics
  bindings : ∀ n, n ∉ names → later.bindings.lookup? n = d.bindings.lookup? n

section Steps

variable {names others : List String} {d later : Draft}

theorem Extends.refl (d : Draft) : d.Extends names d :=
  ⟨rfl, rfl, List.prefix_refl _, rfl, List.prefix_refl _, fun _ _ => rfl⟩

theorem Extends.trans {last : Draft} (h : d.Extends names later)
    (h' : later.Extends names last) : d.Extends names last where
  name := h'.name.trans h.name
  attributes := h'.attributes.trans h.attributes
  children := h.children.trans h'.children
  enclosing := h'.enclosing.trans h.enclosing
  diagnostics := h.diagnostics.trans h'.diagnostics
  bindings n hn := (h'.bindings n hn).trans (h.bindings n hn)

theorem Extends.mono (h : d.Extends names later) (hnames : names ⊆ others) :
    d.Extends others later :=
  { h with bindings := fun n hn => h.bindings n fun hmem => hn (hnames hmem) }

theorem report_extends (d : Draft) (x : Diagnostic) : d.Extends names (d.report x) :=
  { Extends.refl d with diagnostics := List.prefix_append _ _ }

theorem reportAll_extends (d : Draft) (xs : List Diagnostic) :
    d.Extends names (d.reportAll xs) := by
  induction xs generalizing d with
  | nil => exact .refl d
  | cons x xs ih => exact (d.report_extends x).trans (ih (d.report x))

theorem addNode_extends (d : Draft) (n : Node) : d.Extends names (d.addNode n) :=
  { Extends.refl d with children := List.prefix_append _ _ }

theorem bind_extends (d : Draft) {name : String} (h : name ∈ names) (var : String) :
    d.Extends names (d.bind name var) := by
  refine ⟨rfl, rfl, List.prefix_refl _, rfl, List.prefix_refl _, fun n hn => ?_⟩
  refine Bindings.lookup?_append_of_absent (b := [(name, var)]) d.bindings ?_
  rintro x hx rfl
  rw [List.mem_singleton.mp hx] at hn
  exact hn h

/-- What is filled inside a draft leaves the draft as it is, and becomes its last node. -/
theorem adopt_extends {child : Element} (h : (d.fork child).Extends names later) :
    d.Extends names (d.adopt later) where
  name := rfl
  attributes := rfl
  children := List.prefix_append _ _
  enclosing := rfl
  diagnostics := h.diagnostics
  bindings := h.bindings

/-! ## Runs -/

theorem perform_extends (d : Draft) (x : Attempt Node) : d.Extends names (d.perform x) := by
  unfold perform
  split
  · exact (d.reportAll_extends _).trans (addNode_extends _ _)
  · exact d.reportAll_extends _

theorem performBound_extends (d : Draft) {name : String} (h : name ∈ names)
    (x : Attempt Element) : d.Extends names (d.performBound name x) := by
  unfold performBound
  split
  · exact ((d.reportAll_extends _).trans (addNode_extends _ _)).trans (bind_extends _ h name)
  · exact d.reportAll_extends _

theorem addExpression_extends (site : Site) (d : Draft) (e : Expr) :
    d.Extends names (d.addExpression site e) := by
  unfold addExpression
  split
  · split
    · exact d.report_extends _
    · split
      · exact d.report_extends _
      · exact d.perform_extends _
  · exact d.report_extends _

theorem addDeclaration_extends (site : Site) (d : Draft) {name : String} (h : name ∈ names)
    (span : Span) (initializer : Option Expr) :
    d.Extends names (d.addDeclaration site name span initializer) := by
  unfold addDeclaration
  split
  · exact d.report_extends _
  · split
    · exact d.report_extends _
    · split
      · exact d.report_extends _
      · exact d.performBound_extends h _
  · exact d.report_extends _

end Steps

mutual

/-- A statement leaves what is in a draft, but for the names that it declares. -/
theorem statement_extends (site : Site) (kinds : List StatementKind) (d : Draft) (s : Stmt) :
    d.Extends s.declared (d.addStatement site kinds s) := by
  cases s with
  | malformed fault span | other which span =>
    rw [addStatement]
    exact d.report_extends _
  | expression e span =>
    rw [addStatement]
    split
    · exact d.addExpression_extends site e
    · exact d.report_extends _
  | declaration type name initializer span =>
    rw [addStatement, Stmt.declared]
    split
    · exact d.addDeclaration_extends site (List.mem_singleton_self name) span initializer
    · exact d.report_extends _
  | block statements span =>
    rw [addStatement, Stmt.declared]
    split
    · exact statements_extends site kinds d statements
    · exact d.report_extends _
  | conditional condition thenBranch elseBranch span =>
    rw [addStatement, Stmt.declared]
    split
    · -- the chain is run in a child of its own
      have hlink := link_extends site kinds (d.fork { name := "choose" }) condition thenBranch
      have helse := else_extends site kinds
        ((d.fork { name := "choose" }).addLink site kinds condition thenBranch) elseBranch
      exact adopt_extends ((hlink.mono (List.subset_append_left ..)).trans
        (helse.mono (List.subset_append_right ..)))
    · exact d.report_extends _

theorem link_extends (site : Site) (kinds : List StatementKind) (d : Draft) (condition : Expr)
    (s : Stmt) : d.Extends s.declared (d.addLink site kinds condition s) := by
  unfold addLink
  split
  · rename_i statements span
    rw [Stmt.declared]
    split
    · -- the condition is reported on in the chain, and the branch fills a child
      exact (d.reportAll_extends _).trans
        (adopt_extends (statements_extends site kinds _ statements))
    · exact d.report_extends _
  · exact d.report_extends _

theorem else_extends (site : Site) (kinds : List StatementKind) (d : Draft) (s : Option Stmt) :
    d.Extends (declaredInElse s) (d.addElse site kinds s) := by
  unfold addElse
  split
  · exact .refl d
  · rename_i condition thenBranch elseBranch span
    rw [declaredInElse, Stmt.declared]
    have hlink := link_extends site kinds d condition thenBranch
    have helse := else_extends site kinds (d.addLink site kinds condition thenBranch) elseBranch
    exact (hlink.mono (List.subset_append_left ..)).trans
      (helse.mono (List.subset_append_right ..))
  · rename_i statements span
    rw [declaredInElse, Stmt.declared]
    exact adopt_extends (statements_extends site kinds (d.fork { name := "otherwise" }) statements)
  · exact d.report_extends _

theorem statements_extends (site : Site) (kinds : List StatementKind) (d : Draft)
    (ss : List Stmt) : d.Extends (declaredInAll ss) (d.addStatements site kinds ss) := by
  cases ss with
  | nil =>
    rw [addStatements]
    exact .refl d
  | cons s ss =>
    rw [addStatements, declaredInAll]
    have hfirst := statement_extends site kinds d s
    have hrest := statements_extends site kinds (d.addStatement site kinds s) ss
    exact (hfirst.mono (List.subset_append_left ..)).trans
      (hrest.mono (List.subset_append_right ..))

end

theorem addStatements_append (site : Site) (kinds : List StatementKind) (d : Draft)
    (ss ts : List Stmt) :
    d.addStatements site kinds (ss ++ ts) =
      (d.addStatements site kinds ss).addStatements site kinds ts := by
  induction ss generalizing d with
  | nil => rw [List.nil_append, addStatements]
  | cons s ss ih => rw [List.cons_append, addStatements, ih, addStatements]

/-- A statement leaves what is in a draft. So do the statements of a branch: in
    the child element that is opened for them, and in the draft around it, which
    gets the filled child as its last node. A list of statements is run piece by
    piece. -/
theorem addStatement_extends (site : Site) (kinds : List StatementKind) (d : Draft) :
    (∀ s, d.Extends s.declared (d.addStatement site kinds s)) ∧
    (∀ child branch,
      let filled := (d.fork child).addStatements site kinds branch
      (d.fork child).Extends (declaredInAll branch) filled ∧
      filled.join? = some (d.adopt filled) ∧
      d.Extends (declaredInAll branch) (d.adopt filled) ∧
      (d.adopt filled).element.children = d.element.children ++ [filled.element.toNode]) ∧
    (∀ ss ts, d.addStatements site kinds (ss ++ ts) =
      (d.addStatements site kinds ss).addStatements site kinds ts) := by
  refine ⟨statement_extends site kinds d, ?_, addStatements_append site kinds d⟩
  intro child branch filled
  have hfilled := statements_extends site kinds (d.fork child) branch
  refine ⟨hfilled, ?_, adopt_extends hfilled, rfl⟩
  -- the draft around the child is still the one that it was opened in
  rw [join?, hfilled.enclosing]
  rfl

end Draft

/-- Names that statements do not declare are looked up as before them. -/
theorem emitAll_lookup? (site : Site) (kinds : List StatementKind) (b : Bindings)
    (ss : List Stmt) {n : String} (h : n ∉ declaredInAll ss) :
    ((emitAll site kinds b ss).bindings ++ b).lookup? n = b.lookup? n := by
  let d : Draft := { element := { name := "" }, bindings := b }
  have hkept := (Draft.statements_extends site kinds d ss).bindings n h
  rwa [Draft.addStatements_eq_add] at hkept

end GatewayPolicy
