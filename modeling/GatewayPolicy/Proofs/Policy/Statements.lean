import GatewayPolicy.Policy.Emission
import GatewayPolicy.Proofs.Policy.Operations

/-! # Aligned statements emit the same

  - `Emission.Agree` compares emissions: the same nodes, corresponding
    diagnostics, and the same bindings.
  - `Stmt.calls` lists the calls that statements make.
  - `emit_agree` and `emitAll_agree` say that aligned statements agree, if the
    arguments of all operations supply texts as claimed.
-/

namespace GatewayPolicy

variable {C : Comparison} {a : Alignment} {site site' : Site}

/-! ## Emissions -/

/-- Emissions with the same nodes and bindings and corresponding diagnostics. -/
structure Emission.Agree (C : Comparison) (e e' : Emission) : Prop where
  nodes : SameAll (Node.Holds C.written) e.nodes e'.nodes
  diagnostics : List.Forall₂ C.diagnostic e.diagnostics e'.diagnostics
  bindings : e.bindings = e'.bindings

namespace Emission

theorem agree_empty : Agree C {} {} := ⟨⟨rfl, List.forall_mem_nil _⟩, .nil, rfl⟩

theorem Agree.followedBy {e e' f f' : Emission} (he : e.Agree C e') (hf : f.Agree C f') :
    (e.followedBy f).Agree C (e'.followedBy f') := by
  refine ⟨⟨?_, fun n hn => ?_⟩, List.rel_append he.diagnostics hf.diagnostics, ?_⟩
  · rw [Emission.followedBy, Emission.followedBy, he.nodes.1, hf.nodes.1]
  · exact (List.mem_append.1 hn).elim (he.nodes.2 n) (hf.nodes.2 n)
  · rw [Emission.followedBy, Emission.followedBy, he.bindings, hf.bindings]

/-- The nodes of an emission inside an element; the condition of a `when` is code. -/
theorem Agree.within {e e' : Emission} (he : e.Agree C e') {element : Element}
    (hattributes : ∀ x ∈ element.attributes,
      element.name = "when" ∧ x.name = "condition" ∨ C.written x.value)
    (hchildren : element.children = []) : (e.within element).Agree C (e'.within element) := by
  refine ⟨⟨?_, ?_⟩, he.diagnostics, he.bindings⟩
  · rw [Emission.within, Emission.within, he.nodes.1]
  · refine List.forall_mem_singleton.2 (Node.holds_element hattributes fun n hn => ?_)
    rw [Element.append_children, hchildren] at hn
    exact he.nodes.2 n hn

theorem agree_ofReport {d d' : Diagnostic} (h : C.diagnostic d d') :
    (ofReport d).Agree C (ofReport d') :=
  ⟨⟨rfl, List.forall_mem_nil _⟩, .cons h .nil, rfl⟩

theorem agree_ofNode {x y : Attempt Node} (h : Attempt.Agree C (Same (Node.Holds C.written)) x y) :
    (ofNode x).Agree C (ofNode y) := by
  refine ⟨?_, h.diagnostics, rfl⟩
  have hvalue := h.value
  unfold ofNode
  revert hvalue
  generalize x.run.value = v, y.run.value = w
  rintro (⟨rfl, hn⟩ | _)
  · exact ⟨rfl, List.forall_mem_singleton.2 hn⟩
  · exact ⟨rfl, List.forall_mem_nil _⟩

theorem agree_ofBound (name : String) {x y : Attempt Element}
    (h : Attempt.Agree C (Same (Element.Holds C.written)) x y) :
    (ofBound name x).Agree C (ofBound name y) := by
  have hvalue := h.value
  unfold ofBound
  revert hvalue
  generalize x.run.value = v, y.run.value = w
  rintro (⟨rfl, he⟩ | _)
  · exact ⟨⟨rfl, List.forall_mem_singleton.2 he.toNode⟩, h.diagnostics, rfl⟩
  · exact ⟨⟨rfl, List.forall_mem_nil _⟩, h.diagnostics, rfl⟩

end Emission

/-! ## Calls -/

mutual

/-- The calls that a statement makes: what is called, and with which arguments. -/
def Stmt.calls : Stmt → List (Expr × List Argument)
  | .expression (.call target _ arguments _) _ => [(target, arguments)]
  | .declaration _ _ (some (.call target _ arguments _)) _ => [(target, arguments)]
  | .block statements _ => Stmt.callsOfAll statements
  | .conditional _ thenBranch elseBranch _ => thenBranch.calls ++ Stmt.callsOfElse elseBranch
  | _ => []

/-- The calls that some statements make. -/
def Stmt.callsOfAll : List Stmt → List (Expr × List Argument)
  | [] => []
  | s :: ss => s.calls ++ Stmt.callsOfAll ss

/-- The calls that the statement after an `else` makes. -/
def Stmt.callsOfElse : Option Stmt → List (Expr × List Argument)
  | none => []
  | some s => s.calls

end

/-- Of some calls, those of operations supply texts as claimed. -/
def Supply (C : Comparison) (site : Site) (calls : List (Expr × List Argument)) : Prop :=
  ∀ c ∈ calls, (operationName? site c.1).isSome = true → ∀ x ∈ c.2, x.value.Supplies C

theorem operationName_eq (hs : site.Aligned C a site') {e e' : Expr} (h : e.Aligned a e') :
    operationName? site e = operationName? site' e' := by
  unfold operationName?
  rw [← h.methodName_eq, ← hs.receiver]
  have hreceiver := h.receiver_aligned
  revert hreceiver
  generalize e.receiver? = r, e'.receiver? = r'
  rintro (hr | _)
  · cases hr <;> rfl
  · rfl

theorem emitNoCall_agree (hs : site.Aligned C a site') {e e' : Expr} (h : e.Aligned a e') :
    (emitNoCall site e).Agree C (emitNoCall site' e') := by
  unfold emitNoCall
  rw [← h.shape_eq]
  exact Emission.agree_ofReport (hs.report _ h.span_aligned)

theorem emitNoOperation_agree (hs : site.Aligned C a site') {e e' : Expr} (h : e.Aligned a e')
    {s s' : Span} (hspan : a.span s s') :
    (emitNoOperation site e s).Agree C (emitNoOperation site' e' s') :=
  Emission.agree_ofReport (hs.noOperation h.span_aligned hspan)

theorem emitExpression_agree (hs : site.Aligned C a site') (b : Bindings) {e e' : Expr}
    {s : Span} (h : e.Aligned a e') (hd : Supply C site (Stmt.expression e s).calls) :
    (emitExpression site b e).Agree C (emitExpression site' b e') := by
  have hnoCall := emitNoCall_agree hs h
  cases h with
  | call types target arguments span =>
    unfold emitExpression
    dsimp only
    rw [← operationName_eq hs target]
    split
    · exact emitNoOperation_agree hs target span
    · rename_i method hmethod
      split
      · exact emitNoOperation_agree hs target span
      · rename_i operation hoperation
        have hsupplies := hd _ (List.mem_singleton.2 rfl) (by rw [hmethod]; rfl)
        have hplain := Operation.addsPlain_of_named hoperation
        refine Emission.agree_ofNode (operation.run_agree hs b ?_ hplain)
        exact ⟨rfl, arguments, hsupplies, span⟩
  | _ => exact hnoCall

theorem emitDeclaration_agree (hs : site.Aligned C a site') (b : Bindings) {type name : String}
    (hname : a.Named name) {i i' : Option Expr} (hi : Option.Rel (Expr.Aligned a) i i')
    {s s' : Span} (hspan : a.span s s')
    (hd : Supply C site (Stmt.declaration type name i s).calls) :
    (emitDeclaration site b name s i).Agree C (emitDeclaration site' b name s' i') := by
  cases hi with
  | none => exact Emission.agree_ofReport (hs.report _ hspan)
  | some h =>
    have hnoCall := emitNoCall_agree hs h
    cases h with
    | call types target arguments span =>
      unfold emitDeclaration
      dsimp only
      rw [← operationName_eq hs target]
      split
      · exact emitNoOperation_agree hs target span
      · rename_i method hmethod
        split
        · exact emitNoOperation_agree hs target span
        · rename_i operation hoperation
          have hsupplies := hd _ (List.mem_singleton.2 rfl) (by rw [hmethod]; rfl)
          refine Emission.agree_ofBound name (operation.run_agree hs b ?_ hname)
          exact ⟨rfl, arguments, hsupplies, span⟩
    | _ => exact hnoCall

/-! ## Conditions -/

/-- The same comparison, with nothing claimed of texts. -/
def Comparison.anyText (C : Comparison) : Comparison := .ofDiagnostics C.diagnostic

theorem Site.Aligned.anyText (hs : site.Aligned C a site') : site.Aligned C.anyText a site' where
  receiver := hs.receiver
  constant := hs.constant
  code := hs.code
  slice := hs.slice
  named := hs.named
  numeral := hs.numeral
  report := hs.report
  noOperation := hs.noOperation
  unresolved := hs.unresolved

/-- Conditions are code: the same text, of which nothing is claimed. -/
theorem condition_agree (hs : site.Aligned C a site') (b : Bindings) {e e' : Expr}
    (h : e.Aligned a e') :
    whenElement (extract site b e).value = whenElement (extract site' b e').value ∧
      List.Forall₂ C.diagnostic (extract site b e).diagnostics
        (extract site' b e').diagnostics := by
  have hvalue := extract_agree hs.anyText b h (.inl fun _ => trivial)
  refine ⟨?_, hvalue.diagnostics⟩
  have htext := hvalue.value.text_agree
  unfold whenElement
  revert htext
  generalize (extract site b e).value.text? = t, (extract site' b e').value.text? = t'
  rintro (⟨rfl, _⟩ | _) <;> rfl

/-! ## Statements -/

theorem Supply.append {cs ds : List (Expr × List Argument)} :
    Supply C site (cs ++ ds) ↔ Supply C site cs ∧ Supply C site ds := by
  unfold Supply
  exact List.forall_mem_append

theorem emitBranchBody_agree (hs : site.Aligned C a site') {s s' : Stmt} (h : s.Aligned a s') :
    (emitBranchBody site s).Agree C (emitBranchBody site' s') := by
  unfold emitBranchBody
  rw [← h.kind_eq]
  exact Emission.agree_ofReport (hs.report _ h.span_aligned)

theorem emitUnsupported_agree (hs : site.Aligned C a site') {s s' : Stmt} (h : s.Aligned a s') :
    (emitUnsupported site s).Agree C (emitUnsupported site' s') := by
  unfold emitUnsupported
  rw [← h.kind_eq]
  exact Emission.agree_ofReport (hs.report _ h.span_aligned)

mutual

/-- Aligned statements emit the same. -/
theorem emit_agree (hs : site.Aligned C a site') (kinds : List StatementKind) (b : Bindings)
    {s s' : Stmt} (h : s.Aligned a s') (hd : Supply C site s.calls) :
    (emit site kinds b s).Agree C (emit site' kinds b s') := by
  have hunsupported := emitUnsupported_agree hs h
  cases h with
  | malformed fault span => exact Emission.agree_ofReport (hs.report _ span)
  | other which span => exact hunsupported
  | expression expr span =>
    rw [emit, emit]
    split
    · exact emitExpression_agree hs b expr hd
    · exact hunsupported
  | declaration type named initializer span =>
    rw [emit, emit]
    split
    · exact emitDeclaration_agree hs b named initializer span hd
    · exact hunsupported
  | block statements span =>
    rw [emit, emit]
    split
    · exact emitAll_agree hs kinds b statements hd
    · exact hunsupported
  | conditional condition thenBranch elseBranch span =>
    rw [emit, emit]
    split
    · obtain ⟨hthen, helse⟩ := Supply.append.1 hd
      -- the chain goes on behind the first link, with the bindings it leaves
      have hlink := emitWhen_agree hs kinds b condition thenBranch hthen
      dsimp only
      rw [← hlink.bindings]
      exact (hlink.followedBy (emitElse_agree hs kinds _ elseBranch helse)).within
        (List.forall_mem_nil _) rfl
    · exact hunsupported
termination_by sizeOf s

theorem emitWhen_agree (hs : site.Aligned C a site') (kinds : List StatementKind) (b : Bindings)
    {e e' : Expr} (he : e.Aligned a e') {s s' : Stmt} (h : s.Aligned a s')
    (hd : Supply C site s.calls) :
    (emitWhen site kinds b e s).Agree C (emitWhen site' kinds b e' s') := by
  have hbody := emitBranchBody_agree hs h
  cases h with
  | block statements span =>
    have hnoCall := emitNoCall_agree hs he
    obtain ⟨hwhen, hdiagnostics⟩ := condition_agree hs b he
    have hblock := emitAll_agree hs kinds b statements hd
    cases he with
    | call types target arguments span =>
      rw [emitWhen, emitWhen, ← hwhen]
      refine Emission.Agree.followedBy ⟨⟨rfl, List.forall_mem_nil _⟩, hdiagnostics, rfl⟩ ?_
      -- the only attribute is the condition
      refine hblock.within (fun x hx => .inl ⟨rfl, ?_⟩) rfl
      exact congrArg Attribute.name (List.mem_singleton.1 hx)
    | _ => exact hnoCall
  | _ => exact hbody
termination_by sizeOf s

theorem emitElse_agree (hs : site.Aligned C a site') (kinds : List StatementKind) (b : Bindings)
    {o o' : Option Stmt} (h : Option.Rel (Stmt.Aligned a) o o')
    (hd : Supply C site (Stmt.callsOfElse o)) :
    (emitElse site kinds b o).Agree C (emitElse site' kinds b o') := by
  cases h with
  | none => exact Emission.agree_empty
  | some h =>
    have hbody := emitBranchBody_agree hs h
    cases h with
    | conditional condition thenBranch elseBranch span =>
      obtain ⟨hthen, helse⟩ := Supply.append.1 hd
      have hlink := emitWhen_agree hs kinds b condition thenBranch hthen
      rw [emitElse, emitElse, ← hlink.bindings]
      exact hlink.followedBy (emitElse_agree hs kinds _ elseBranch helse)
    | block statements span =>
      rw [emitElse, emitElse]
      exact (emitAll_agree hs kinds b statements hd).within (List.forall_mem_nil _) rfl
    | _ => exact hbody
termination_by sizeOf o

theorem emitAll_agree (hs : site.Aligned C a site') (kinds : List StatementKind) (b : Bindings)
    {ss ss' : List Stmt} (h : List.Forall₂ (Stmt.Aligned a) ss ss')
    (hd : Supply C site (Stmt.callsOfAll ss)) :
    (emitAll site kinds b ss).Agree C (emitAll site' kinds b ss') := by
  cases h with
  | nil => exact Emission.agree_empty
  | cons head tail =>
    obtain ⟨hhead, htail⟩ := Supply.append.1 hd
    have hfirst := emit_agree hs kinds b head hhead
    rw [emitAll, emitAll, ← hfirst.bindings]
    exact hfirst.followedBy (emitAll_agree hs kinds _ tail htail)
termination_by sizeOf ss

end

end GatewayPolicy
