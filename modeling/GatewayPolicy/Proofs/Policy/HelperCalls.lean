import GatewayPolicy.Policy.Extract

/-! # Calls of helper methods

  A call stands for the code of the method that it calls. Methods of one name are told
  apart by how many parameters they have, and it is the first of them, over all parts of
  the class, that is called. Whether it has a body is asked only then.

  - `Expr.Calls` says which method of which class a called expression names.
  - `Model.overloads` lists the methods of a name with a number of parameters.
  - `extract_helperCall` is the result: the first overload decides. A declaration without
    a body hides all that follow it, also those that have one.
-/

namespace GatewayPolicy

/-! ## Called methods -/

/-- A called expression in a class names a method of a class: `Helper`, `this.Helper` and
    `Type.Helper`, where the type may be written with a path in front. -/
inductive Expr.Calls (className : String) : String → String → Expr → Prop
  | own (method : String) (span : Span) : Calls className className method (.name method span)
  | this (method : String) (conditional : Bool) (inner span : Span) :
    Calls className className method (.member (.name "this" inner) method conditional span)
  | ofType {receiver : Expr} {front : List String} {owner : String} (method : String)
      (conditional : Bool) (span : Span) (path : receiver.path? = some (front ++ [owner]))
      (noThis : front ++ [owner] ≠ ["this"]) :
    Calls className owner method (.member receiver method conditional span)

namespace Expr.Calls

variable {className owner method : String} {target : Expr}

theorem methodName?_eq (h : target.Calls className owner method) :
    target.methodName? = some method := by
  cases h <;> rfl

theorem calledClass?_eq (h : target.Calls className owner method) :
    calledClass? className target = some owner := by
  cases h with
  | own | this => rfl
  | ofType _ conditional span path noThis =>
    rw [calledClass?, receiver?]
    split
    · contradiction
    · rename_i h
      obtain rfl := Option.some.inj h
      exact absurd (Option.some.inj path).symm noThis
    · rename_i h
      obtain rfl := Option.some.inj h
      simp [path]

end Expr.Calls

/-! ## Overloads -/

namespace Model

/-- The methods of a name with a number of parameters, over the parts of a class in order. -/
def overloads (m : Model) (className method : String) (count : Nat) : List Helper :=
  (m.methodsNamed className method).filter (·.method.parameters.length == count)

theorem mem_overloads {m : Model} {className method : String} {count : Nat} {h : Helper} :
    h ∈ m.overloads className method count ↔
      (h.part ∈ m.parts ∧ h.part.decl.name = className) ∧
        (h.method ∈ h.part.decl.methods ∧ h.method.name = method) ∧
          h.method.parameters.length = count := by
  obtain ⟨part, d⟩ := h
  simp only [overloads, methodsNamed, partsOf, List.mem_filter, List.mem_flatMap, List.mem_map,
    beq_iff_eq]
  constructor
  · rintro ⟨⟨_, hpart, _, hd, heq⟩, hcount⟩
    cases heq
    exact ⟨hpart, hd, hcount⟩
  · rintro ⟨hpart, hd, hcount⟩
    exact ⟨⟨part, hpart, d, hd, rfl⟩, hcount⟩

/-- The first overload is called. -/
theorem resolve_of_overloads {m : Model} {className owner method : String} {target : Expr}
    {count : Nat} {first : Helper} {others : List Helper}
    (calls : target.Calls className owner method)
    (h : m.overloads owner method count = first :: others) :
    m.resolve className target count = some first := by
  have found : (m.methodsNamed owner method).find? (·.method.parameters.length == count) =
      some first := by
    rw [← List.head?_filter]
    exact congrArg List.head? h
  simp [resolve, calls.methodName?_eq, calls.calledClass?_eq, found]

end Model

/-- A method has code exactly when it has a body. -/
theorem Helper.isSome_code? (h : Helper) : h.code?.isSome = h.method.body.isSome := by
  unfold Helper.code?
  split
  · rename_i hb
    rw [hb]
    rfl
  · rename_i body hb
    rw [hb]
    cases body <;> rfl

/-! ## Values of calls -/

/-- Where a class has methods of a name with as many parameters as a call has arguments,
    the call stands for the first of them. If that one has a body, the value of the call is
    its code and nothing is reported. If it has none, the value is the empty text with one
    report, whatever follows it. -/
theorem extract_helperCall (site : Site) (b : Bindings) {owner method : String} {target : Expr}
    (types : List String) (arguments : List Argument) (span : Span)
    (calls : target.Calls site.className owner method) {part : Part} {d : MethodDecl}
    (hpart : part ∈ site.model.parts ∧ part.decl.name = owner)
    (hd : d ∈ part.decl.methods ∧ d.name = method)
    (hcount : d.parameters.length = arguments.length) :
    let v := extract site b (.call target types arguments span)
    ∃ first others, site.model.overloads owner method arguments.length = first :: others ∧
      (first.method.body.isSome → ∃ code, first.code? = some code ∧
        v.value = .single code span ∧ v.diagnostics = []) ∧
      (first.method.body = none → v.value = .single "" span ∧
        ∃ name, v.diagnostics = [site.diagnostic (.unresolvedCode name) span]) := by
  intro v
  have listed : (⟨part, d⟩ : Helper) ∈ site.model.overloads owner method arguments.length :=
    Model.mem_overloads.mpr ⟨hpart, hd, hcount⟩
  obtain ⟨first, others, hfirst⟩ := List.exists_cons_of_ne_nil (List.ne_nil_of_mem listed)
  have hv : v = extractCall site target arguments.length span := by
    simp only [v, extract]
  have hresolve := Model.resolve_of_overloads calls hfirst
  refine ⟨first, others, hfirst, fun hbody => ?_, fun hbody => ?_⟩
  · rw [← first.isSome_code?] at hbody
    obtain ⟨code, hcode⟩ := Option.isSome_iff_exists.mp hbody
    refine ⟨code, hcode, ?_⟩
    simp [hv, extractCall, hresolve, hcode]
  · have hcode : first.code? = none := by
      rw [← Option.not_isSome_iff_eq_none, first.isSome_code?, hbody]
      simp
    obtain ⟨name, hname⟩ : ∃ name, v = site.refuse (.unresolvedCode name) span := by
      rw [hv, extractCall, hresolve, Option.bind_some, hcode]
      exact ⟨_, rfl⟩
    rw [hname]
    exact ⟨rfl, name, rfl⟩

namespace PartialMethod

/-- The method `string H(IContext c)`, with this body. -/
def helper (body : Option MethodBody) : MethodDecl :=
  { (default : MethodDecl) with
    name := "H"
    parameters := [{ type := "IContext", name := "c", span := default }]
    body }

/-- The class `partial class C { partial string H(IContext c);
    partial string H(IContext c) => c; }`. -/
def part : Part where
  file := default
  decl := { (default : ClassDecl) with
    name := "C"
    members := [.method (helper none), .method (helper (some (.expression (.name "c" default))))] }

/-- Code in the class. -/
def site : Site where
  model := { trees := [{ file := default, classes := [part.decl] }] }
  part := part
  receiver := "context"

/-- The arguments of the call `H(context)`. -/
def arguments : List Argument := [.mk none (.name "context" default) default]

end PartialMethod

/-- A method with a body is not found behind a declaration of it without one. -/
theorem extract_helperCall_partial :
    let d := PartialMethod.helper (some (.expression (.name "c" default)))
    let v := extract PartialMethod.site []
      (.call (.name "H" default) [] PartialMethod.arguments default)
    (PartialMethod.part ∈ PartialMethod.site.model.parts ∧ PartialMethod.part.decl.name = "C") ∧
      (d ∈ PartialMethod.part.decl.methods ∧ d.name = "H") ∧
      d.parameters.length = PartialMethod.arguments.length ∧ d.body.isSome ∧
      v.value = .single "" default ∧ v.diagnostics ≠ [] := by
  have hpart : PartialMethod.part ∈ PartialMethod.site.model.parts :=
    List.mem_singleton_self PartialMethod.part
  have hd : PartialMethod.helper (some (.expression (.name "c" default))) ∈
      PartialMethod.part.decl.methods := List.mem_cons_of_mem _ (List.mem_singleton_self _)
  obtain ⟨first, others, hfirst, -, hnone⟩ := extract_helperCall PartialMethod.site []
    [] PartialMethod.arguments default (.own "H" default) ⟨hpart, rfl⟩ ⟨hd, rfl⟩ rfl
  obtain rfl : first = ⟨PartialMethod.part, PartialMethod.helper none⟩ :=
    (List.cons.inj hfirst).1.symm
  obtain ⟨hvalue, name, hreport⟩ := hnone rfl
  refine ⟨⟨hpart, rfl⟩, ⟨hd, rfl⟩, rfl, rfl, hvalue, ?_⟩
  rw [hreport]
  exact List.cons_ne_nil _ _

end GatewayPolicy
