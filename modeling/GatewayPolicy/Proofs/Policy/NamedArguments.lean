import GatewayPolicy.Policy.Operation.Table
import GatewayPolicy.Proofs.Policy.Accounting
import GatewayPolicy.Proofs.Policy.Sources
import Mathlib.Data.List.Perm.Basic

/-! # Names in front of arguments

  Some operations take their attributes as arguments. An argument may be written with the
  name of the parameter that it is meant for, but the name is not read: arguments are taken
  by their places. So a call whose arguments are named and stand in another order than the
  parameters gives an element that says something else, and nothing is reported.

  - `ArgumentOperation` lists these operations, with their parameters.
  - `ArgumentOperation.filled` is the element that is made of some texts.
  - `ArgumentOperation.HeedsNames` says that each argument becomes the attribute of the
    parameter that it names.
  - `ArgumentOperation.run_byPlace` gives the exact conditions under which names are heeded
    and the order of the arguments makes no difference.
-/

namespace GatewayPolicy

open Attempt

/-! ## The operations and their parameters -/

/-- A parameter, and the attribute that its argument is meant for. -/
structure AttributeParameter where
  name : String
  target : String
  deriving DecidableEq, Repr

/-- An operation whose arguments become attributes. -/
inductive ArgumentOperation where
  | setVariable
  | rewriteUri
  | findAndReplace
  | includeFragment
  | authenticationBasic
  | cacheStore
  deriving DecidableEq, Repr

namespace ArgumentOperation

/-- The name that the operation is called by. -/
def name : ArgumentOperation → String
  | setVariable => "SetVariable"
  | rewriteUri => "RewriteUri"
  | findAndReplace => "FindAndReplace"
  | includeFragment => "IncludeFragment"
  | authenticationBasic => "AuthenticationBasic"
  | cacheStore => "CacheStore"

/-- The element that a call adds. -/
def element : ArgumentOperation → String
  | setVariable => "set-variable"
  | rewriteUri => "rewrite-uri"
  | findAndReplace => "find-and-replace"
  | includeFragment => "include-fragment"
  | authenticationBasic => "authentication-basic"
  | cacheStore => "cache-store"

/-- How many arguments have to be given. -/
def needed : ArgumentOperation → Nat
  | setVariable | findAndReplace | authenticationBasic => 2
  | rewriteUri | includeFragment | cacheStore => 1

/-- The parameters in order. -/
def parameters : ArgumentOperation → List AttributeParameter
  | setVariable => [⟨"name", "name"⟩, ⟨"value", "value"⟩]
  | rewriteUri => [⟨"template", "template"⟩, ⟨"copyUnmatchedParams", "copy-unmatched-params"⟩]
  | findAndReplace => [⟨"from", "from"⟩, ⟨"to", "to"⟩]
  | includeFragment => [⟨"fragmentId", "fragment-id"⟩]
  | authenticationBasic => [⟨"username", "username"⟩, ⟨"password", "password"⟩]
  | cacheStore => [⟨"duration", "duration"⟩, ⟨"cacheResponse", "cache-response"⟩]

/-- What the operation does. -/
def operation (k : ArgumentOperation) : Operation :=
  .positional k.element k.needed (k.parameters.map AttributeParameter.target)

/-- These are operations of the table. -/
theorem named?_name (k : ArgumentOperation) : Operation.named? k.name = some k.operation := by
  cases k <;> rfl

theorem nodup_targets (k : ArgumentOperation) :
    (k.parameters.map AttributeParameter.target).Nodup := by
  cases k <;> decide

/-- The element that is made of texts, taken by their places. -/
def filled (k : ArgumentOperation) (texts : List String) : Element where
  name := k.element
  attributes := List.zipWith (fun p text => { name := p.target, value := text }) k.parameters texts

end ArgumentOperation

/-- The text of an argument, if it is a single text. -/
def Site.argumentText? (site : Site) (b : Bindings) (a : Argument) : Option String :=
  (extract site b a.value).value.text?

/-- The argument without the name in front of it. -/
def Argument.withoutName : Argument → Argument
  | .mk _ value span => .mk none value span

/-! ## Attributes in order -/

section Attributes

variable {site : Site} {b : Bindings}

theorem Site.run_textArgument_of_some {a : Argument} {text : String}
    (h : site.argumentText? b a = some text) :
    (site.textArgument b a).run =
      { value := some text, diagnostics := (extract site b a.value).diagnostics } := by
  have hsingle : site.singleText .argument (extract site b a.value).value = pure text := by
    rw [Site.singleText]
    rw [Site.argumentText?] at h
    rw [h]
  rw [Site.textArgument, run_lift_bind, hsingle]
  simp

/-- Arguments that are all single texts become attributes, and report what they report by
    themselves. -/
theorem run_positionalAttributes {names texts : List String} {as : List Argument}
    (htexts : as.map (site.argumentText? b) = texts.map some) (hcount : as.length ≤ names.length) :
    (positionalAttributes site b names as).run =
      { value := some (List.zipWith Attribute.mk names texts)
        diagnostics := as.flatMap fun a => (extract site b a.value).diagnostics } := by
  induction as generalizing names texts with
  | nil =>
    obtain rfl : texts = [] := by simpa using htexts.symm
    cases names <;> rfl
  | cons a as ih =>
    obtain ⟨text, texts, rfl⟩ : ∃ text others, texts = text :: others := by
      cases texts with
      | nil => cases htexts
      | cons text texts => exact ⟨text, texts, rfl⟩
    obtain ⟨name, names, rfl⟩ : ∃ name others, names = name :: others := by
      cases names with
      | nil => simp at hcount
      | cons name names => exact ⟨name, names, rfl⟩
    rw [List.map_cons, List.map_cons, List.cons.injEq] at htexts
    have hhead := Site.run_textArgument_of_some htexts.1
    have htail := ih htexts.2 (Nat.le_of_succ_le_succ hcount)
    rw [positionalAttributes, run_bind_some _ (congrArg Reported.value hhead),
      run_bind_some _ (congrArg Reported.value htail), hhead, htail]
    simp

/-- Attributes are only made of arguments that are all single texts. -/
theorem texts_of_positionalAttributes {names : List String} {as : List Argument}
    {xs : List Attribute} (hcount : as.length ≤ names.length)
    (h : (positionalAttributes site b names as).run.value = some xs) :
    ∃ texts : List String, as.map (site.argumentText? b) = texts.map some := by
  induction as generalizing names xs with
  | nil => exact ⟨[], rfl⟩
  | cons a as ih =>
    cases names with
    | nil => simp at hcount
    | cons name names =>
      obtain ⟨text, htext, h⟩ := Attempt.value_bind_eq_some h
      obtain ⟨others, hothers, -⟩ := Attempt.value_bind_eq_some h
      obtain ⟨texts, htexts⟩ := ih (Nat.le_of_succ_le_succ hcount) hothers
      refine ⟨text :: texts, ?_⟩
      rw [List.map_cons, List.map_cons, htexts, Site.argumentText?, Site.value_textArgument htext]

theorem positionalAttributes_withoutName (names : List String) (as : List Argument) :
    positionalAttributes site b names (as.map Argument.withoutName) =
      positionalAttributes site b names as := by
  induction as generalizing names with
  | nil => rfl
  | cons a as ih =>
    cases names with
    | nil => rfl
    | cons name names =>
      cases a
      rw [List.map_cons, positionalAttributes, positionalAttributes, ih names]
      rfl

end Attributes

/-! ## Elements made of texts -/

section Filled

variable {ps : List AttributeParameter}

/-- The attributes of some parameters, with texts taken by their places. -/
theorem values_zipWith {texts : List String} (h : texts.length ≤ ps.length) :
    (List.zipWith (fun p text => Attribute.mk p.target text) ps texts).map Attribute.value =
      texts := by
  induction ps generalizing texts with
  | nil =>
    obtain rfl := List.eq_nil_of_length_eq_zero (Nat.le_zero.mp h)
    rfl
  | cons p ps ih =>
    cases texts with
    | nil => rfl
    | cons text texts =>
      rw [List.zipWith_cons_cons, List.map_cons, ih (Nat.le_of_succ_le_succ h)]

theorem find?_zipWith (hnodup : (ps.map AttributeParameter.target).Nodup) {j : Nat}
    {p : AttributeParameter} (hp : ps[j]? = some p) (texts : List String) :
    ((List.zipWith (fun p text => Attribute.mk p.target text) ps texts).find?
      (·.name == p.target)).map Attribute.value = texts[j]? := by
  induction ps generalizing j texts with
  | nil => cases hp
  | cons q ps ih =>
    rw [List.map_cons, List.nodup_cons] at hnodup
    cases texts with
    | nil => rfl
    | cons text texts =>
      cases j with
      | zero =>
        obtain rfl : q = p := by simpa using hp
        simp
      | succ j =>
        have hmem : p ∈ ps := List.mem_of_getElem? hp
        have hne : q.target ≠ p.target := fun h =>
          hnodup.1 (h ▸ List.mem_map_of_mem hmem)
        simpa [hne] using ih hnodup.2 hp texts

end Filled

namespace ArgumentOperation

section Calls

variable {site : Site} {b : Bindings} {call : Call} {k : ArgumentOperation} {texts : List String}
  {node : Node}

/-- The text at the place of a parameter becomes its attribute. -/
theorem attribute?_filled {j : Nat} {p : AttributeParameter} (hp : k.parameters[j]? = some p) :
    (k.filled texts).attribute? p.target = texts[j]? :=
  find?_zipWith k.nodup_targets hp texts

/-- An element tells which texts it was made of. -/
theorem filled_injective {texts' : List String} (hle : texts.length ≤ k.parameters.length)
    (hle' : texts'.length ≤ k.parameters.length)
    (h : (k.filled texts).toNode = (k.filled texts').toNode) : texts = texts' := by
  have hattributes : (k.filled texts).attributes = (k.filled texts').attributes := by
    injection h
  calc texts = (k.filled texts).attributes.map Attribute.value := (values_zipWith hle).symm
    _ = (k.filled texts').attributes.map Attribute.value := by rw [hattributes]
    _ = texts' := values_zipWith hle'

/-- So many arguments are neither too few nor too many. -/
def Takes (k : ArgumentOperation) (count : Nat) : Prop :=
  k.needed ≤ count ∧ count ≤ k.parameters.length

/-- The range of arguments that the operation checks. -/
theorem allows_iff (k : ArgumentOperation) (count : Nat) :
    ({ least := k.needed, most := some (k.parameters.map AttributeParameter.target).length } :
      ArgumentRange).allows count = true ↔ k.Takes count := by
  simp [ArgumentRange.allows, Takes]

/-- With the right number of arguments that are all single texts, the element is made of
    their texts, and only they report. -/
theorem run_of_texts (hcount : k.Takes call.arguments.length)
    (htexts : call.arguments.map (site.argumentText? b) = texts.map some) :
    (k.operation.run site b call).run =
      { value := some (k.filled texts).toNode
        diagnostics := call.arguments.flatMap fun a => (extract site b a.value).diagnostics } := by
  have hattributes := run_positionalAttributes htexts
    (hcount.2.trans (List.length_map AttributeParameter.target).ge)
  rw [List.zipWith_map_left] at hattributes
  rw [operation, Operation.run, map_eq_pure_bind, readPositional, Site.checkCount,
    if_pos ((k.allows_iff _).mpr hcount), pure_bind, bind_assoc,
    run_bind_some _ (congrArg Reported.value hattributes), hattributes]
  simp [filled]

/-- A call that gives a node has the right number of arguments, and they are all single
    texts. -/
theorem texts_of_run (h : (k.operation.run site b call).run.value = some node) :
    k.Takes call.arguments.length ∧ ∃ texts : List String,
      call.arguments.map (site.argumentText? b) = texts.map some := by
  obtain ⟨e, he, -⟩ := Attempt.value_map_eq_some h
  obtain ⟨u, hu, he⟩ := Attempt.value_bind_eq_some he
  obtain ⟨xs, hxs, -⟩ := Attempt.value_bind_eq_some he
  have hcount : k.Takes call.arguments.length := by
    rw [Site.checkCount] at hu
    split at hu
    · rename_i hallows
      exact (k.allows_iff _).mp hallows
    · cases hu
  refine ⟨hcount, texts_of_positionalAttributes ?_ hxs⟩
  exact hcount.2.trans (List.length_map AttributeParameter.target).ge

theorem run_withoutName (k : ArgumentOperation) (site : Site) (b : Bindings) (call : Call) :
    k.operation.run site b { call with arguments := call.arguments.map Argument.withoutName } =
      k.operation.run site b call := by
  rw [operation, Operation.run, Operation.run, readPositional, readPositional]
  simp only [positionalAttributes_withoutName, Site.checkCount, List.length_map]

/-! ## Order -/

/-- Arguments in another order give the same node exactly if their texts are in the same
    order. -/
theorem run_perm_iff (hcount : k.Takes call.arguments.length)
    (htexts : call.arguments.map (site.argumentText? b) = texts.map some) {others : List Argument}
    (hperm : others.Perm call.arguments) :
    (k.operation.run site b { call with arguments := others }).run.value =
        some (k.filled texts).toNode ↔
      others.map (site.argumentText? b) = texts.map some := by
  have hcount' : k.Takes others.length := by rwa [hperm.length_eq]
  constructor
  · intro h
    obtain ⟨-, texts', htexts'⟩ := texts_of_run h
    have hrun := congrArg Reported.value (run_of_texts hcount' htexts')
    have hnode : (k.filled texts').toNode = (k.filled texts).toNode :=
      Option.some.inj (hrun.symm.trans h)
    have hlength : texts.length = call.arguments.length := by
      simpa using (congrArg List.length htexts).symm
    have hlength' : texts'.length = others.length := by
      simpa using (congrArg List.length htexts').symm
    rw [filled_injective (hlength' ▸ hcount'.2) (hlength ▸ hcount.2) hnode] at htexts'
    exact htexts'
  · intro h
    exact congrArg Reported.value (run_of_texts hcount' h)

/-! ## Names -/

/-- Every argument with the name of a parameter becomes the attribute of that parameter. -/
def HeedsNames (k : ArgumentOperation) (site : Site) (b : Bindings) (arguments : List Argument)
    (e : Element) : Prop :=
  ∀ a ∈ arguments, ∀ p ∈ k.parameters, a.name = some p.name →
    e.attribute? p.target = site.argumentText? b a

/-- Names are heeded exactly if the text of an argument with the name of a parameter is also
    the text at the place of that parameter. -/
theorem heedsNames_filled_iff {arguments : List Argument}
    (htexts : arguments.map (site.argumentText? b) = texts.map some) :
    k.HeedsNames site b arguments (k.filled texts) ↔
      ∀ (i j : Nat) (a : Argument) (p : AttributeParameter), arguments[i]? = some a →
        k.parameters[j]? = some p → a.name = some p.name → texts[j]? = texts[i]? := by
  have htext : ∀ (i : Nat) (a : Argument), arguments[i]? = some a →
      texts[i]? = site.argumentText? b a := by
    intro i a ha
    have hi := congrArg (fun l => l[i]?) htexts
    simp only [List.getElem?_map, ha, Option.map_some] at hi
    obtain ⟨text, hi, heq⟩ := Option.map_eq_some_iff.mp hi.symm
    rw [hi, heq]
  constructor
  · intro h i j a p ha hp hname
    rw [htext i a ha, ← attribute?_filled hp]
    exact h a (List.mem_of_getElem? ha) p (List.mem_of_getElem? hp) hname
  · intro h a ha p hp hname
    obtain ⟨i, ha⟩ := List.mem_iff_getElem?.mp ha
    obtain ⟨j, hp⟩ := List.mem_iff_getElem?.mp hp
    rw [attribute?_filled hp, ← htext i a ha]
    exact h i j a p ha hp hname

end Calls

end ArgumentOperation

/-- A list gives the same in every order exactly if all its members give the same. -/
theorem forall_perm_map_eq_iff {α β : Type} (f : α → β) (as : List α) :
    (∀ bs : List α, bs.Perm as → bs.map f = as.map f) ↔ ∀ a ∈ as, ∀ a' ∈ as, f a = f a' := by
  constructor
  · intro h
    -- every member can be put in front
    have hhead : ∀ a ∈ as, (as.map f).head? = some (f a) := by
      intro a ha
      obtain ⟨l, r, rfl⟩ := List.append_of_mem ha
      rw [← h (a :: (l ++ r)) List.perm_middle.symm]
      rfl
    intro a ha a' ha'
    exact Option.some.inj ((hhead a ha).symm.trans (hhead a' ha'))
  · intro h bs hperm
    cases as with
    | nil => rw [hperm.eq_nil]
    | cons a as =>
      have hall : (a :: as).map f = List.replicate (a :: as).length (f a) := by
        rw [List.map_eq_replicate_iff]
        exact fun a' ha' => h a' ha' a List.mem_cons_self
      have hmap := hperm.map f
      rw [hall] at hmap ⊢
      exact List.perm_replicate.mp hmap

namespace ArgumentOperation

/-- Arguments are taken by their places, and the names in front of them are not read: a call
    gives and reports the same without them. A call that gives no element has reported why.
    One that gives an element has only reported what its arguments report by themselves, and
    each attribute is the text of the argument at its place. So names are heeded exactly if
    the argument at the place of the parameter that is named has the same text, and the
    element is the same for every order of the arguments exactly if they all have the same
    text. -/
theorem run_byPlace (k : ArgumentOperation) (site : Site) (b : Bindings) (call : Call) :
    let run := fun arguments => (k.operation.run site b { call with arguments }).run
    Operation.named? k.name = some k.operation ∧
      run (call.arguments.map Argument.withoutName) = run call.arguments ∧
      ((run call.arguments).value = none → (run call.arguments).diagnostics ≠ []) ∧
      ∀ node, (run call.arguments).value = some node →
        ∃ texts : List String, call.arguments.map (site.argumentText? b) = texts.map some ∧
          node = (k.filled texts).toNode ∧
          (run call.arguments).diagnostics =
            call.arguments.flatMap (fun a => (extract site b a.value).diagnostics) ∧
          (k.HeedsNames site b call.arguments (k.filled texts) ↔
            ∀ (i j : Nat) (a : Argument) (p : AttributeParameter), call.arguments[i]? = some a →
              k.parameters[j]? = some p → a.name = some p.name → texts[j]? = texts[i]?) ∧
          ((∀ others : List Argument, others.Perm call.arguments →
              (run others).value = some node) ↔
            ∀ a ∈ call.arguments, ∀ a' ∈ call.arguments,
              site.argumentText? b a = site.argumentText? b a') := by
  intro run
  refine ⟨k.named?_name, congrArg OptionT.run (k.run_withoutName site b call),
    k.operation.accounted_run site b call, ?_⟩
  intro node hnode
  obtain ⟨hcount, texts, htexts⟩ := texts_of_run hnode
  have hrun := run_of_texts hcount htexts
  obtain rfl : (k.filled texts).toNode = node :=
    Option.some.inj ((congrArg Reported.value hrun).symm.trans hnode)
  refine ⟨texts, htexts, rfl, congrArg Reported.diagnostics hrun, heedsNames_filled_iff htexts, ?_⟩
  rw [← forall_perm_map_eq_iff]
  refine forall₂_congr fun others hperm => ?_
  rw [htexts]
  exact run_perm_iff hcount htexts hperm

/-- The call `AuthenticationBasic(password: "secret", username: "admin")`. -/
def swappedCall : Call where
  method := "AuthenticationBasic"
  arguments :=
    [.mk (some "password") (.literal { kind := .string, value := "secret", span := default })
      default,
     .mk (some "username") (.literal { kind := .string, value := "admin", span := default })
      default]
  span := default

/-- The password is written as the name of the user, and nothing is reported. -/
theorem run_byPlace_swapped :
    let x := (authenticationBasic.operation.run default [] swappedCall).run
    ∃ e : Element, x.value = some e.toNode ∧ x.diagnostics = [] ∧
      e.attributes = [⟨"username", "secret"⟩, ⟨"password", "admin"⟩] ∧
      ¬ authenticationBasic.HeedsNames default [] swappedCall.arguments e := by
  intro x
  obtain ⟨-, -, -, hgives⟩ := authenticationBasic.run_byPlace default [] swappedCall
  obtain ⟨texts, htexts, -, hreports, hheeds, -⟩ :=
    hgives (authenticationBasic.filled ["secret", "admin"]).toNode rfl
  obtain rfl : texts = ["secret", "admin"] := by
    have hmap : texts.map some = ["secret", "admin"].map some := htexts.symm
    exact (Option.some_injective String).list_map hmap
  refine ⟨authenticationBasic.filled ["secret", "admin"], rfl, hreports, rfl, fun hall => ?_⟩
  have hswap : some "admin" = some "secret" := hheeds.mp hall 0 1 _ _ rfl rfl rfl
  exact absurd hswap (by decide)

end ArgumentOperation

end GatewayPolicy
