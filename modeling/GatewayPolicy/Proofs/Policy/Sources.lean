import GatewayPolicy.Markup.Writer
import GatewayPolicy.Proofs.Policy.Forms
import Mathlib.Data.List.Infix

/-! # Where the values of nodes come from

  An operation is given texts and adds a node. Here are both sides: the slots of a
  node with the values in them, and the texts of a value with the place where each
  was given. What attempts make of texts is told by inversion: an attempt that succeeds
  has read the values that stand in its result.

  - `Node.filled` lists the slots of a node, and `Node.chars_filled` finds each value
    in what is written of the node.
  - `Value.sources` lists the texts of a value, and `Value.From` says that they are
    among some; fields and elements keep it.
-/

namespace GatewayPolicy

/-! ## Slots -/

/-- A place in a node that holds a value. -/
inductive Slot where
  | attributeOf (element name : String)
  /-- The text inside an element. -/
  | contentOf (element : String)
  /-- Markup that is copied as it stands. -/
  | markup
  deriving DecidableEq, Repr

/-- A value as it is written in a slot. -/
def Slot.chars : Slot → String → List Char
  | .attributeOf .., v => valueChars escapeAttribute v
  | .contentOf _, v => valueChars escapeText v
  | .markup, v => v.toList

mutual

/-- The slots of a node inside an element, with their values. -/
def Node.filled (parent : String) : Node → List (Slot × String)
  | .element name attributes children =>
    attributes.map (fun x => (.attributeOf name x.name, x.value)) ++ Node.filledOfAll name children
  | .text t => [(.contentOf parent, t)]
  | .raw m => [(.markup, m)]

/-- The slots of the nodes inside an element. -/
def Node.filledOfAll (parent : String) : List Node → List (Slot × String)
  | [] => []
  | n :: ns => n.filled parent ++ Node.filledOfAll parent ns

end

theorem Node.mem_filledOfAll {parent : String} {ns : List Node} {p : Slot × String} :
    p ∈ Node.filledOfAll parent ns ↔ ∃ n ∈ ns, p ∈ n.filled parent := by
  induction ns with
  | nil => simp [Node.filledOfAll]
  | cons n ns ih => simp [Node.filledOfAll, ih]

theorem Attribute.chars_filled (x : Attribute) :
    valueChars escapeAttribute x.value <:+: x.chars := by
  refine ⟨' ' :: x.name.toList ++ ['=', '"'], ['"'], ?_⟩
  simp [Attribute.chars]

theorem tagChars_filled (name : String) {attributes : List Attribute} {x : Attribute}
    (h : x ∈ attributes) : valueChars escapeAttribute x.value <:+: tagChars name attributes := by
  have hx : x.chars <:+: attributes.flatMap Attribute.chars := by
    rw [List.flatMap_def]
    exact List.infix_of_mem_flatten (List.mem_map_of_mem h)
  exact List.infix_append_of_infix_right (x.chars_filled.trans hx)

mutual

/-- Every value of a node is found in what is written of the node. -/
theorem Node.chars_filled (layout : Layout) (depth : Nat) (parent : String) (n : Node)
    {p : Slot × String} (h : p ∈ n.filled parent) : p.1.chars p.2 <:+: n.chars layout depth := by
  cases n with
  | text t =>
    rw [Node.filled, List.mem_singleton] at h
    rw [h, Node.chars]
    exact List.infix_rfl
  | raw m =>
    rw [Node.filled, List.mem_singleton] at h
    rw [h, Node.chars]
    exact List.infix_rfl
  | element name attributes children =>
    rw [Node.filled, List.mem_append, List.mem_map] at h
    rcases h with ⟨x, hx, rfl⟩ | h
    · have htag := tagChars_filled name hx
      cases children with
      | nil => grind [Node.chars, Slot.chars]
      | cons child children => grind [Node.chars, Slot.chars]
    · cases children with
      | nil => cases h
      | cons child children =>
        rw [Node.filledOfAll, List.mem_append] at h
        rw [Node.chars]
        rcases h with h | h
        · have hchild := Node.chars_filled layout (depth + 1) name child h
          grind
        · have hchildren := Node.allChars_filled layout (depth + 1) name
            ((child :: children).any Node.isElement) children h
          grind

theorem Node.allChars_filled (layout : Layout) (depth : Nat) (parent : String) (spread : Bool)
    (ns : List Node) {p : Slot × String} (h : p ∈ Node.filledOfAll parent ns) :
    p.1.chars p.2 <:+: Node.allChars layout depth spread ns := by
  cases ns with
  | nil => cases h
  | cons n ns =>
    rw [Node.filledOfAll, List.mem_append] at h
    rw [Node.allChars]
    rcases h with h | h
    · have hn := Node.chars_filled layout depth parent n h
      exact List.infix_append_of_infix_left (List.infix_append_of_infix_right hn)
    · have hns := Node.allChars_filled layout depth parent spread ns h
      exact List.infix_append_of_infix_right hns

end

/-! ## Sources -/

/-- Where a text is given to an operation. -/
inductive Origin where
  /-- In an argument, by itself or in a list. -/
  | argument (index : Nat)
  /-- In a field of a configuration, by itself or in a list. -/
  | field (name : String)
  deriving DecidableEq, Repr

/-- A text that is given to an operation. -/
structure Source where
  origin : Origin
  text : String
  deriving DecidableEq, Repr

mutual

/-- The texts of a value that is given at an origin. -/
def Value.sources (origin : Origin) : Value → List Source
  | .single text _ => [⟨origin, text⟩]
  | .named _ fields _ => Value.sourcesOfFields fields
  | .positional _ elements _ => Value.sourcesOfAll origin elements

/-- The texts of some fields. -/
def Value.sourcesOfFields : List (String × Value) → List Source
  | [] => []
  | field :: fields => Value.sourcesOfField field ++ Value.sourcesOfFields fields

/-- The texts of a field. -/
def Value.sourcesOfField : String × Value → List Source
  | (name, v) => v.sources (.field name)

/-- The texts of some elements. -/
def Value.sourcesOfAll (origin : Origin) : List Value → List Source
  | [] => []
  | v :: vs => v.sources origin ++ Value.sourcesOfAll origin vs

end

/-- The texts that a call gives to its operation. -/
def Call.sources (site : Site) (b : Bindings) (call : Call) : List Source :=
  call.arguments.zipIdx.flatMap fun a => (extract site b a.1.value).value.sources (.argument a.2)

/-- The text of a field. -/
def Value.fieldText? (v : Value) (field : String) : Option String :=
  (v.field? field).bind Value.text?

/-- All texts of a value that is given at an origin are among some. -/
def Value.From (S : List Source) (origin : Origin) (v : Value) : Prop :=
  ∀ s ∈ v.sources origin, s ∈ S

section From

variable {S : List Source} {origin : Origin} {v w : Value}

theorem Value.From.text (h : v.From S origin) {t : String} (ht : v.text? = some t) :
    ⟨origin, t⟩ ∈ S := by
  cases v with
  | single text span =>
    cases ht
    apply h
    simp [Value.sources]
  | named type fields span => cases ht
  | positional type elements span => cases ht

theorem Value.mem_sourcesOfFields {fields : List (String × Value)} {field : String × Value}
    (h : field ∈ fields) {s : Source} (hs : s ∈ field.2.sources (.field field.1)) :
    s ∈ Value.sourcesOfFields fields := by
  induction fields with
  | nil => cases h
  | cons other fields ih =>
    rw [Value.sourcesOfFields, List.mem_append]
    rcases List.mem_cons.1 h with rfl | h
    · left
      rw [Value.sourcesOfField]
      exact hs
    · exact .inr (ih h)

theorem Value.From.field (h : v.From S origin) {name : String} (hw : v.field? name = some w) :
    w.From S (.field name) := by
  obtain ⟨field, hfind, rfl⟩ := Option.map_eq_some_iff.1 hw
  have hmem := List.mem_of_find?_eq_some hfind
  have hname : field.1 = name := by simpa using List.find?_some hfind
  intro s hs
  rw [← hname] at hs
  cases v with
  | single text span => cases hmem
  | named type fields span =>
    apply h
    rw [Value.sources]
    exact Value.mem_sourcesOfFields hmem hs
  | positional type elements span => cases hmem

theorem Value.mem_sourcesOfAll {vs : List Value} (h : w ∈ vs) {s : Source}
    (hs : s ∈ w.sources origin) : s ∈ Value.sourcesOfAll origin vs := by
  induction vs with
  | nil => cases h
  | cons v vs ih =>
    rw [Value.sourcesOfAll, List.mem_append]
    rcases List.mem_cons.1 h with rfl | h
    · exact .inl hs
    · exact .inr (ih h)

theorem Value.From.element (h : v.From S origin) (hw : w ∈ v.elements) : w.From S origin := by
  intro s hs
  cases v with
  | single text span => cases hw
  | named type fields span => cases hw
  | positional type elements span =>
    apply h
    rw [Value.sources]
    exact Value.mem_sourcesOfAll hw hs

theorem Value.From.fieldText (h : v.From S origin) {field t : String}
    (ht : v.fieldText? field = some t) : ⟨.field field, t⟩ ∈ S := by
  obtain ⟨w, hw, ht⟩ := Option.bind_eq_some_iff.1 ht
  exact (h.field hw).text ht

/-- The texts of an argument are among those of the call. -/
theorem Call.from_argument {site : Site} {b : Bindings} {call : Call} {i : Nat} {a : Argument}
    (h : call.arguments[i]? = some a) :
    (extract site b a.value).value.From (call.sources site b) (.argument i) := by
  intro s hs
  apply List.mem_flatMap.2
  exact ⟨(a, i), List.mem_zipIdx_iff_getElem?.2 h, hs⟩

end From

/-! ## Attempts that succeed -/

section Attempts

variable {α β : Type}

theorem Attempt.value_bind_eq_some {x : Attempt α} {f : α → Attempt β} {r : β}
    (h : (x >>= f).run.value = some r) :
    ∃ a, x.run.value = some a ∧ (f a).run.value = some r := by
  cases hx : x.run.value with
  | none =>
    rw [Attempt.run_bind_none f hx] at h
    cases h
  | some a =>
    rw [Attempt.run_bind_some f hx] at h
    exact ⟨a, rfl, h⟩

theorem Attempt.value_map_eq_some {x : Attempt α} {f : α → β} {r : β}
    (h : (f <$> x).run.value = some r) : ∃ a, x.run.value = some a ∧ f a = r := by
  rw [Attempt.value_map] at h
  exact Option.map_eq_some_iff.1 h

/-- After a result that is always there. -/
theorem Attempt.value_lift_bind_eq_some {x : Reported α} {f : α → Attempt β} {r : β}
    (h : ((liftM x : Attempt α) >>= f).run.value = some r) : (f x.value).run.value = some r := by
  obtain ⟨a, ha, h⟩ := Attempt.value_bind_eq_some h
  cases ha
  exact h

theorem Reported.value_collect (f : α → Reported β) (as : List α) :
    (Reported.collect f as).value = as.map fun a => (f a).value := by
  induction as with
  | nil => rfl
  | cons a as ih => rw [List.map_cons, ← ih]; rfl

theorem Reported.diagnostics_collect (f : α → Reported β) (as : List α) :
    (Reported.collect f as).diagnostics = as.flatMap fun a => (f a).diagnostics := by
  induction as with
  | nil => rfl
  | cons a as ih =>
    rw [List.flatMap_cons, ← ih]
    show _ ++ (_ ++ []) = _
    rw [List.append_nil]

/-- A result of those that were built comes from one that was read. -/
theorem Reported.mem_built {f : α → Attempt β} {as : List α} {r : β}
    (h : r ∈ (Reported.collect (fun a => (f a).run) as).value.filterMap id) :
    ∃ a ∈ as, (f a).run.value = some r := by
  rw [Reported.value_collect, List.mem_filterMap] at h
  obtain ⟨x, hx, rfl⟩ := h
  obtain ⟨a, ha, hx⟩ := List.mem_map.1 hx
  exact ⟨a, ha, hx⟩

variable {site : Site} {S : List Source} {origin : Origin} {v : Value}

@[simp] theorem Site.value_singleText (slot : TextSlot) :
    (site.singleText slot v).run.value = v.text? := by
  unfold Site.singleText
  cases v.text? with
  | none => rfl
  | some t => rfl

theorem Site.mem_texts (h : v.From S origin) {t : String} (ht : t ∈ (site.texts v).value) :
    ⟨origin, t⟩ ∈ S := by
  unfold Site.texts at ht
  cases htext : v.text? with
  | some text =>
    rw [htext] at ht
    rw [List.mem_singleton.1 ht]
    exact h.text htext
  | none =>
    rw [htext] at ht
    obtain ⟨w, hw, ht⟩ := Reported.mem_built ht
    rw [Site.value_singleText] at ht
    exact (h.element hw).text ht

theorem Site.mem_fieldTexts (h : v.From S origin) {field t : String}
    (ht : t ∈ (site.fieldTexts v field).value) : ⟨.field field, t⟩ ∈ S := by
  unfold Site.fieldTexts at ht
  cases hfield : v.field? field with
  | none =>
    rw [hfield] at ht
    cases ht
  | some w =>
    rw [hfield] at ht
    exact Site.mem_texts (h.field hfield) ht

theorem Site.value_textArgument {b : Bindings} {a : Argument} {t : String}
    (h : (site.textArgument b a).run.value = some t) :
    (extract site b a.value).value.text? = some t := by
  have htext := Attempt.value_lift_bind_eq_some h
  rw [Site.value_singleText] at htext
  exact htext

theorem Site.value_configuration {b : Bindings} {call : Call} {expected : String} {a : Argument}
    (h : (site.configuration b call expected a).run.value = some v) :
    v = (extract site b a.value).value := by
  unfold Site.configuration at h
  split at h
  · have hvalue := Attempt.value_lift_bind_eq_some h
    split at hvalue
    · exact (Option.some.inj hvalue).symm
    · split at hvalue
      · exact (Option.some.inj hvalue).symm
      · cases hvalue
  · cases h

/-- A configuration is the first argument of its call. -/
theorem Site.from_onlyConfiguration {b : Bindings} {call : Call} {expected : String}
    (h : (site.onlyConfiguration b call expected).run.value = some v) :
    v.From (call.sources site b) (.argument 0) := by
  obtain ⟨-, -, h⟩ := Attempt.value_bind_eq_some h
  cases harguments : call.arguments with
  | nil =>
    rw [harguments] at h
    cases h
  | cons a others =>
    rw [harguments] at h
    rw [Site.value_configuration h]
    apply Call.from_argument
    rw [harguments]
    rfl

end Attempts

/-! ## Rules -/

/-- The settings that a rule reads. -/
def Rule.settings : Rule → List Setting
  | .required s | .optional s => [s]
  | .exactlyOne choices | .atLeastOne choices => choices
  | .supplied _ => []

/-- The attribute that was pulled. -/
def Pull.pulled : Pull → Attribute
  | .fromField _ x => x
  | .supplied x => x

end GatewayPolicy
