import GatewayPolicy.Document.Compile

/-! # What holds of every node of a document

  The nodes of a document are added by operations, and statements only put nodes
  inside elements of their own: conditionals, branches and sections. So what holds of
  the node of every operation, and of an element around such nodes, holds of every
  document.

  - `NodeInvariant` collects what has to be shown.
  - `NodeInvariant.emit` and its companions follow the statements, and
    `NodeInvariant.documents` is the result.
-/

namespace GatewayPolicy

/-- Something that operations provide for and that elements around their nodes keep. The
    elements that statements add have one attribute at most. -/
structure NodeInvariant (P : Node → Prop) : Prop where
  operation : ∀ {site : Site} {b : Bindings} {call : Call} {name : String} {o : Operation}
    {n : Node}, Operation.named? name = some o → (o.run site b call).run.value = some n → P n
  bound : ∀ {site : Site} {b : Bindings} {call : Call} {name : String} {o : BoundOperation}
    {e : Element}, (o.run site b call name).run.value = some e → P e.toNode
  around : ∀ (name : String) {attributes : List Attribute} {ns : List Node},
    attributes.length ≤ 1 → (∀ n ∈ ns, P n) → P (.element name attributes ns)

namespace NodeInvariant

variable {P : Node → Prop}

/-- An element without attributes. -/
theorem bare (h : NodeInvariant P) (name : String) {ns : List Node} (hns : ∀ n ∈ ns, P n) :
    P (Element.append { name } ns).toNode :=
  h.around name (Nat.zero_le 1) hns

theorem ofReport (d : Diagnostic) : ∀ n ∈ (Emission.ofReport d).nodes, P n :=
  List.forall_mem_nil _

/-! ## Statements -/

theorem emitExpression (h : NodeInvariant P) (site : Site) (b : Bindings) (e : Expr) :
    ∀ n ∈ (emitExpression site b e).nodes, P n := by
  unfold GatewayPolicy.emitExpression
  split
  · split
    · exact ofReport _
    · split
      · exact ofReport _
      · rename_i operation hnamed
        intro n hn
        exact h.operation hnamed (Option.mem_toList.mp hn)
  · exact ofReport _

theorem ofBound {name : String} {x : Attempt Element}
    (hx : ∀ e, x.run.value = some e → P e.toNode) :
    ∀ n ∈ (Emission.ofBound name x).nodes, P n := by
  unfold Emission.ofBound
  split
  · rename_i e he
    exact List.forall_mem_singleton.mpr (hx e he)
  · exact List.forall_mem_nil _

theorem emitDeclaration (h : NodeInvariant P) (site : Site) (b : Bindings) (name : String)
    (span : Span) (initializer : Option Expr) :
    ∀ n ∈ (emitDeclaration site b name span initializer).nodes, P n := by
  unfold GatewayPolicy.emitDeclaration
  split
  · exact ofReport _
  · split
    · exact ofReport _
    · split
      · exact ofReport _
      · exact ofBound fun e he => h.bound he
  · exact ofReport _

theorem within (h : NodeInvariant P) {e : Emission} (he : ∀ n ∈ e.nodes, P n) (name : String) :
    ∀ n ∈ (e.within { name }).nodes, P n :=
  List.forall_mem_singleton.mpr (h.bare name he)

theorem followedBy {e f : Emission} (he : ∀ n ∈ e.nodes, P n) (hf : ∀ n ∈ f.nodes, P n) :
    ∀ n ∈ (e.followedBy f).nodes, P n :=
  List.forall_mem_append.mpr ⟨he, hf⟩

mutual

theorem emit (h : NodeInvariant P) (site : Site) (kinds : List StatementKind) (b : Bindings)
    (s : Stmt) : ∀ n ∈ (emit site kinds b s).nodes, P n := by
  cases s with
  | malformed fault span =>
    rw [GatewayPolicy.emit]
    exact ofReport _
  | other which span =>
    rw [GatewayPolicy.emit]
    exact ofReport _
  | expression e span =>
    rw [GatewayPolicy.emit]
    split
    · exact h.emitExpression site b e
    · exact ofReport _
  | declaration type name initializer span =>
    rw [GatewayPolicy.emit]
    split
    · exact h.emitDeclaration site b name span initializer
    · exact ofReport _
  | block statements span =>
    rw [GatewayPolicy.emit]
    split
    · exact emitAll h site kinds b statements
    · exact ofReport _
  | conditional condition thenBranch elseBranch span =>
    rw [GatewayPolicy.emit]
    split
    · exact h.within (followedBy (emitWhen h site kinds b condition thenBranch)
        (emitElse h site kinds _ elseBranch)) "choose"
    · exact ofReport _

theorem emitWhen (h : NodeInvariant P) (site : Site) (kinds : List StatementKind) (b : Bindings)
    (condition : Expr) (s : Stmt) : ∀ n ∈ (emitWhen site kinds b condition s).nodes, P n := by
  unfold GatewayPolicy.emitWhen
  split
  · rename_i statements span
    split
    · have hbody := emitAll h site kinds b statements
      exact List.forall_mem_singleton.mpr (h.around "when" (Nat.le_refl 1) hbody)
    · exact ofReport _
  · exact ofReport _

theorem emitElse (h : NodeInvariant P) (site : Site) (kinds : List StatementKind) (b : Bindings)
    (s : Option Stmt) : ∀ n ∈ (emitElse site kinds b s).nodes, P n := by
  unfold GatewayPolicy.emitElse
  split
  · exact List.forall_mem_nil _
  · rename_i condition thenBranch elseBranch span
    exact followedBy (emitWhen h site kinds b condition thenBranch)
      (emitElse h site kinds _ elseBranch)
  · rename_i statements span
    exact h.within (emitAll h site kinds b statements) "otherwise"
  · exact ofReport _

theorem emitAll (h : NodeInvariant P) (site : Site) (kinds : List StatementKind) (b : Bindings)
    (ss : List Stmt) : ∀ n ∈ (emitAll site kinds b ss).nodes, P n := by
  cases ss with
  | nil =>
    rw [GatewayPolicy.emitAll]
    exact List.forall_mem_nil _
  | cons s ss =>
    rw [GatewayPolicy.emitAll]
    exact followedBy (emit h site kinds b s) (emitAll h site kinds _ ss)

end

/-! ## Documents -/

theorem emission (h : NodeInvariant P) (s : SectionMethod) (m : Model) (b : Bindings) :
    ∀ n ∈ (s.emission m b).nodes, P n := by
  unfold SectionMethod.emission
  split
  · rename_i statements span hbody
    exact h.within (h.emitAll (s.site m) allKinds b statements) s.role.element
  · exact ofReport _

theorem emitSections (h : NodeInvariant P) (m : Model) (document : String)
    (seen : List PolicySection) (b : Bindings) (ss : List SectionMethod) :
    ∀ n ∈ (emitSections m document seen b ss).nodes, P n := by
  induction ss generalizing seen b with
  | nil => exact List.forall_mem_nil _
  | cons s ss ih =>
    rw [GatewayPolicy.emitSections]
    apply followedBy
    · split
      · exact ofReport _
      · exact h.emission s m b
    · exact ih _ _

theorem rootOf (h : NodeInvariant P) (kind : DocumentKind) {ns : List Node}
    (hns : ∀ n ∈ ns, P n) : P (rootOf kind ns).toNode := by
  cases kind with
  | document => exact h.bare _ hns
  | fragment =>
    -- a section is the root, unless there is none
    cases ns with
    | nil => exact h.bare _ (List.forall_mem_nil _)
    | cons n ns =>
      have hn := hns n List.mem_cons_self
      cases n with
      | element name attributes children => exact hn
      | text s => exact h.bare _ (List.forall_mem_nil _)
      | raw markup => exact h.bare _ (List.forall_mem_nil _)

/-- What operations provide for holds of every document. -/
theorem documents (h : NodeInvariant P) {m : Model} {d : CompiledDocument}
    (hd : d ∈ m.documents) : P d.root.toNode := by
  obtain ⟨className, -, hdocument⟩ := List.mem_filterMap.mp hd
  obtain ⟨x, -, rfl⟩ := Option.map_eq_some_iff.mp hdocument
  dsimp only
  rw [assemble_eq_emitSections]
  exact h.rootOf _ (h.emitSections m _ [] [] _)

end NodeInvariant

end GatewayPolicy
