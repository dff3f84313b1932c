import GatewayPolicy.Proofs.Policy.Rules
import Mathlib.Data.List.Sort

/-! # The order of attributes

  The attributes of a form are pulled rule by rule, and written in another order. Those
  that were read from fields are sorted by their fields and put back into the places that
  such attributes had; those that the operation adds stay where they are.

  - `fieldOrder_eq_insertionSort` finds the sort in the library.
  - `Arranged` says what it means that pulls are put in order, and `arrange_arranged`
    that `arrange` does it. No attribute is lost or repeated: `arrange_perm`.
  - `Form.read_arranged` is the same for the element that a form gives, with the field
    that each attribute was read from.
-/

namespace GatewayPolicy

/-! ## Sorting -/

/-- The attribute, if it was read from a field, with the index of the field. -/
def Pull.indexed? : Pull → Option (Nat × Attribute)
  | .fromField index x => some (index, x)
  | .supplied _ => none

/-- The attribute, if the operation added it. -/
def Pull.supplied? : Pull → Option Attribute
  | .fromField .. => none
  | .supplied x => some x

/-- One attribute was read from the same field as another, or from one in front of it. -/
def NotBehind (p q : Nat × Attribute) : Prop := p.1 ≤ q.1

instance : DecidableRel NotBehind := fun p q => inferInstanceAs (Decidable (p.1 ≤ q.1))

instance : Std.Total NotBehind := ⟨fun p q => Nat.le_total p.1 q.1⟩

instance : IsTrans (Nat × Attribute) NotBehind := ⟨fun _ _ _ => Nat.le_trans⟩

theorem insertByIndex_eq_orderedInsert (p : Nat × Attribute) (qs : List (Nat × Attribute)) :
    insertByIndex p qs = qs.orderedInsert NotBehind p := by
  induction qs with
  | nil => rfl
  | cons q qs ih =>
    rw [insertByIndex, List.orderedInsert_cons, ih]
    rfl

theorem fieldOrder_eq_insertionSort (ps : List Pull) :
    fieldOrder ps = (ps.filterMap Pull.indexed?).insertionSort NotBehind := by
  induction ps with
  | nil => rfl
  | cons p ps ih =>
    cases p with
    | fromField index x =>
      rw [fieldOrder, ih, insertByIndex_eq_orderedInsert]
      rfl
    | supplied x => exact ih

theorem length_fieldOrder (ps : List Pull) :
    (fieldOrder ps).length = (ps.filterMap Pull.indexed?).length := by
  rw [fieldOrder_eq_insertionSort, List.length_insertionSort]

/-! ## Filling places -/

/-- Pulls with others in the places of those that were read from fields. -/
def refill : List Pull → List (Nat × Attribute) → List Pull
  | [], _ => []
  | .supplied x :: ps, qs => .supplied x :: refill ps qs
  | .fromField .. :: ps, q :: qs => .fromField q.1 q.2 :: refill ps qs
  | .fromField .. :: ps, [] => refill ps []

theorem fillPlaces_eq (ps : List Pull) (qs : List (Nat × Attribute)) :
    fillPlaces ps qs = (refill ps qs).map Pull.pulled := by
  induction ps generalizing qs with
  | nil => rfl
  | cons p ps ih =>
    cases p with
    | supplied x => exact congrArg (x :: ·) (ih qs)
    | fromField index x =>
      cases qs with
      | nil => exact ih []
      | cons q qs => exact congrArg (q.2 :: ·) (ih qs)

theorem refill_indexed (ps : List Pull) : refill ps (ps.filterMap Pull.indexed?) = ps := by
  induction ps with
  | nil => rfl
  | cons p ps ih =>
    cases p with
    | fromField index x => exact congrArg (Pull.fromField index x :: ·) ih
    | supplied x => exact congrArg (Pull.supplied x :: ·) ih

section Refill

variable {ps : List Pull} {qs : List (Nat × Attribute)}

/-- Every place is filled when there are as many attributes as places. -/
theorem refill_perm (h : qs.length = (ps.filterMap Pull.indexed?).length) :
    (refill ps qs).Perm
      ((ps.filterMap Pull.supplied?).map .supplied ++ qs.map fun q => .fromField q.1 q.2) := by
  induction ps generalizing qs with
  | nil =>
    rw [List.eq_nil_of_length_eq_zero h]
    exact .refl _
  | cons p ps ih =>
    cases p with
    | supplied x => exact (ih h).cons _
    | fromField index x =>
      cases qs with
      | nil => cases h
      | cons q qs =>
        have hrest := ih (Nat.succ.inj h)
        exact (hrest.cons _).trans List.perm_middle.symm

theorem filterMap_refill (h : qs.length = (ps.filterMap Pull.indexed?).length) :
    (refill ps qs).filterMap Pull.indexed? = qs := by
  induction ps generalizing qs with
  | nil => exact (List.eq_nil_of_length_eq_zero h).symm
  | cons p ps ih =>
    cases p with
    | supplied x => exact ih h
    | fromField index x =>
      cases qs with
      | nil => cases h
      | cons q qs => exact congrArg (q :: ·) (ih (Nat.succ.inj h))

/-- What the operation added keeps its place. -/
theorem refill_supplied (h : qs.length = (ps.filterMap Pull.indexed?).length) (k : Nat)
    (x : Attribute) : (refill ps qs)[k]? = some (.supplied x) ↔ ps[k]? = some (.supplied x) := by
  induction ps generalizing qs k with
  | nil => rfl
  | cons p ps ih =>
    cases p with
    | supplied y =>
      cases k with
      | zero => rfl
      | succ k => exact ih h k
    | fromField index y =>
      cases qs with
      | nil => cases h
      | cons q qs =>
        cases k with
        | zero => exact iff_of_false (fun h => nomatch h) (fun h => nomatch h)
        | succ k => exact ih (Nat.succ.inj h) k

end Refill

/-! ## Order -/

/-- Pulls, as they are written. -/
structure Arranged (pulls written : List Pull) : Prop where
  /-- None is lost, and none is repeated. -/
  perm : written.Perm pulls
  /-- What the operation added is in its place, and nothing else is in such a place. -/
  supplied : ∀ (k : Nat) (x : Attribute),
    written[k]? = some (Pull.supplied x) ↔ pulls[k]? = some (Pull.supplied x)
  /-- What was read from fields comes in the order of the fields. -/
  sorted : (written.filterMap Pull.indexed?).Pairwise NotBehind
  /-- What was pulled in the order of the fields keeps its order, also within one field. -/
  stable : ∀ qs : List (Nat × Attribute), qs.Sublist (pulls.filterMap Pull.indexed?) →
    qs.Pairwise NotBehind → qs.Sublist (written.filterMap Pull.indexed?)

theorem arranged_refill (ps : List Pull) : Arranged ps (refill ps (fieldOrder ps)) where
  perm := by
    have horder : (fieldOrder ps).Perm (ps.filterMap Pull.indexed?) := by
      rw [fieldOrder_eq_insertionSort]
      exact List.perm_insertionSort _ _
    calc (refill ps (fieldOrder ps)).Perm ((ps.filterMap Pull.supplied?).map .supplied ++
          (fieldOrder ps).map fun q => .fromField q.1 q.2) := refill_perm (length_fieldOrder ps)
      List.Perm _ ((ps.filterMap Pull.supplied?).map .supplied ++
          (ps.filterMap Pull.indexed?).map fun q => .fromField q.1 q.2) :=
        (horder.map _).append_left _
      List.Perm _ (refill ps (ps.filterMap Pull.indexed?)) := (refill_perm rfl).symm
      List.Perm _ ps := .of_eq (refill_indexed ps)
  supplied := refill_supplied (length_fieldOrder ps)
  sorted := by
    rw [filterMap_refill (length_fieldOrder ps), fieldOrder_eq_insertionSort]
    exact List.pairwise_insertionSort _ _
  stable qs hqs hsorted := by
    rw [filterMap_refill (length_fieldOrder ps), fieldOrder_eq_insertionSort]
    exact List.sublist_insertionSort hsorted hqs

theorem arrange_arranged (ps : List Pull) :
    ∃ written, Arranged ps written ∧ arrange ps = written.map Pull.pulled :=
  ⟨_, arranged_refill ps, fillPlaces_eq ps _⟩

/-- Putting attributes in order loses none and repeats none. -/
theorem arrange_perm (ps : List Pull) : (arrange ps).Perm (ps.map Pull.pulled) := by
  obtain ⟨written, harranged, hwritten⟩ := arrange_arranged ps
  rw [hwritten]
  exact harranged.perm.map _

/-! ## Forms -/

/-- Where a pull comes from: from the field at its index, which is the first of its name and
    which one of the rules reads into this attribute, or from a rule that adds it. -/
def Pull.StemsFrom (config : Value) (rules : List Rule) : Pull → Prop
  | .fromField index x =>
    ∃ s ∈ rules.flatMap Rule.settings, s.target = x.name ∧
      config.fieldIndex? s.field = some index ∧
      ∃ v, config.fields[index]? = some (s.field, v) ∧ v.text? = some x.value
  | .supplied x => .supplied x ∈ rules

section Forms

variable {site : Site} {config : Value} {f : Form} {e : Element}

theorem Value.getElem?_fieldIndex {name : String} {index : Nat}
    (h : config.fieldIndex? name = some index) :
    ∃ v, config.fields[index]? = some (name, v) ∧ config.field? name = some v := by
  obtain ⟨hindex, hname, hfirst⟩ := List.findIdx?_eq_some_iff_getElem.mp h
  have hfind : config.fields.find? (·.1 == name) = some config.fields[index] := by
    rw [List.find?_eq_some_iff_getElem]
    exact ⟨hname, index, hindex, rfl, fun j hj => by simpa using hfirst j hj⟩
  have hname : config.fields[index].1 = name := by simpa using hname
  refine ⟨config.fields[index].2, ?_, ?_⟩
  · rw [List.getElem?_eq_getElem hindex, ← hname]
  · rw [field?, hfind]
    rfl

theorem Setting.draw?_eq_some {s : Setting} {p : Pull} (h : s.draw? config = some p) :
    ∃ index v text, config.fieldIndex? s.field = some index ∧
      config.fields[index]? = some (s.field, v) ∧ v.text? = some text ∧
      p = .fromField index { name := s.target, value := text } := by
  obtain ⟨index, hindex, h⟩ := Option.bind_eq_some_iff.mp h
  obtain ⟨text, htext, rfl⟩ := Option.map_eq_some_iff.mp h
  obtain ⟨v, hv, hfield⟩ := Value.getElem?_fieldIndex hindex
  rw [Value.fieldText?, hfield, Option.bind_some] at htext
  exact ⟨index, v, text, hindex, hv, htext, rfl⟩

theorem Rule.reads_sublist (config : Value) (r : Rule) :
    (r.reads config).Sublist r.settings := by
  cases r with
  | required s | optional s | atLeastOne choices => exact List.filter_sublist
  | exactlyOne choices =>
    rw [reads, settings]
    split
    · exact List.filter_sublist
    · exact List.nil_sublist _
  | supplied x => exact List.nil_sublist _

/-- All rules but one read settings. -/
theorem Rule.mem_draws {r : Rule} {p : Pull} (hp : p ∈ r.draws config) :
    (∃ x, r = .supplied x ∧ p = .supplied x) ∨
      ∃ s ∈ r.settings, s.draw? config = some p := by
  cases r with
  | supplied x => exact .inl ⟨x, rfl, List.mem_singleton.mp hp⟩
  | required _ | optional _ | exactlyOne _ | atLeastOne _ =>
    obtain ⟨s, hs, hdraw⟩ := List.mem_filterMap.mp hp
    exact .inr ⟨s, (reads_sublist config _).subset hs, hdraw⟩

theorem Form.stemsFrom_of_mem_draws {p : Pull} (hp : p ∈ f.draws config) :
    p.StemsFrom config f.rules := by
  obtain ⟨r, hr, hp⟩ := List.mem_flatMap.mp hp
  rcases Rule.mem_draws hp with ⟨x, rfl, rfl⟩ | ⟨s, hs, hdraw⟩
  · exact hr
  · obtain ⟨index, v, text, hindex, hv, htext, rfl⟩ := Setting.draw?_eq_some hdraw
    exact ⟨s, List.mem_flatMap.mpr ⟨r, hr, hs⟩, rfl, hindex, v, hv, htext⟩

theorem Form.mem_filled {x : Attribute} :
    x ∈ (f.filled config).attributes ↔ ∃ p ∈ f.draws config, p.pulled = x := by
  rw [Form.filled, (arrange_perm _).mem_iff, List.mem_map]

/-- The attributes that a form gives are supplied by its rules or read from fields. -/
theorem Form.mem_read (h : (f.read site config).run.value = some e) :
    e.name = f.element ∧ e.children = [] ∧ ∀ x ∈ e.attributes, .supplied x ∈ f.rules ∨
      ∃ r ∈ f.rules, ∃ s ∈ r.settings,
        s.target = x.name ∧ config.fieldText? s.field = some x.value := by
  obtain ⟨-, rfl⟩ := Form.eq_filled h
  refine ⟨rfl, rfl, ?_⟩
  intro x hx
  obtain ⟨p, hp, rfl⟩ := Form.mem_filled.mp hx
  obtain ⟨r, hr, hp⟩ := List.mem_flatMap.mp hp
  rcases Rule.mem_draws hp with ⟨x, rfl, rfl⟩ | ⟨s, hs, hdraw⟩
  · exact .inl hr
  · obtain ⟨index, -, hdraw⟩ := Option.bind_eq_some_iff.mp hdraw
    obtain ⟨text, htext, rfl⟩ := Option.map_eq_some_iff.mp hdraw
    exact .inr ⟨r, hr, s, hs, rfl, htext⟩

/-- The attributes of the element that a form gives are those that its rules pulled, put in
    order: nothing is lost or repeated, what the operation adds keeps its place, and the
    others come in the order of the fields they were read from. -/
theorem Form.read_arranged (h : (f.read site config).run.value = some e) :
    let pulls := f.draws config
    (f.pulls site config).run.value = some pulls ∧ (∀ p ∈ pulls, p.StemsFrom config f.rules) ∧
      ∃ written, Arranged pulls written ∧ e.attributes = written.map Pull.pulled := by
  intro pulls
  obtain ⟨hfits, rfl⟩ := Form.eq_filled h
  refine ⟨?_, fun p => Form.stemsFrom_of_mem_draws, arrange_arranged pulls⟩
  rw [f.tells_pulls site config, (f.fits_iff config).mp hfits]
  rfl

/-- The field that is read last is written first, on either side of the attribute that the
    operation adds; a field that is there twice is read once. -/
theorem Form.read_arranged_cached :
    let config : Value := .named none [("DefaultValue", .single "none" default),
      ("Key", .single "k" default), ("Key", .single "other" default)] default
    let e : Element := { name := "cache-lookup-value", attributes :=
      [⟨"default-value", "none"⟩, ⟨"variable-name", "cached"⟩, ⟨"key", "k"⟩] }
    let pulls := [Pull.fromField 1 ⟨"key", "k"⟩, .supplied ⟨"variable-name", "cached"⟩,
      .fromField 0 ⟨"default-value", "none"⟩]
    ((cachedValueForm "cached").read default config).run.value = some e ∧
      (cachedValueForm "cached").draws config = pulls ∧
      ∃ written, Arranged pulls written ∧ e.attributes = written.map Pull.pulled := by
  intro config e pulls
  have hread : ((cachedValueForm "cached").read default config).run.value = some e := by rfl
  exact ⟨hread, rfl, (Form.read_arranged hread).2.2⟩

end Forms

end GatewayPolicy
