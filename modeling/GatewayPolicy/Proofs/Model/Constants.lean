import GatewayPolicy.Model.Constant
import Mathlib.Data.List.Perm.Subperm
import Mathlib.Data.List.Nodup

/-! # How deep constants are looked up

  References are followed to a depth that is given in advance. Each field on the way is
  a different one, since a field that is met again is a cycle, and is reported as such.
  So a depth beyond the number of fields is never used up, and says nothing about the
  result.

  - `Model.length_visiting_le` bounds the fields on the way.
  - `Model.constantWithin_of_enough` says that all depths that are large enough give
    the same value.
  - `Model.evaluate_of_fields` follows: constants have the same values where the same
    fields are found, however many fields there are besides.
-/

namespace GatewayPolicy

namespace Model

variable {m : Model}

/-- All fields, each with its class. -/
def fieldKeys (m : Model) : List (String × String) :=
  m.parts.flatMap fun p => p.decl.fields.map fun f => (p.decl.name, f.name)

theorem length_fieldKeys (m : Model) : m.fieldKeys.length = m.fieldCount := by
  unfold fieldKeys fieldCount
  rw [List.length_flatMap, List.length_flatMap]
  simp only [List.length_map]

/-- A field that is found stands in a part of its class. -/
theorem exists_of_field? {owner name : String} {field : FieldDecl}
    (h : m.field? owner name = some field) :
    ∃ p ∈ m.parts, p.decl.name = owner ∧ field ∈ p.decl.fields ∧ field.name = name := by
  obtain ⟨p, hp, hfind⟩ := List.exists_of_findSome?_eq_some h
  obtain ⟨hmem, hname⟩ := List.mem_filter.mp hp
  have hfield := List.find?_some hfind
  exact ⟨p, hmem, eq_of_beq hname, List.mem_of_find?_eq_some hfind, eq_of_beq hfield⟩

theorem mem_fieldKeys {owner name : String} {field : FieldDecl}
    (h : m.field? owner name = some field) : (owner, name) ∈ m.fieldKeys := by
  obtain ⟨p, hp, rfl, hfield, rfl⟩ := exists_of_field? h
  exact List.mem_flatMap.mpr ⟨p, hp, List.mem_map_of_mem hfield⟩

/-- Different fields are no more than there are fields. -/
theorem length_visiting_le {visiting : List (String × String)} (hnodup : visiting.Nodup)
    (hfields : visiting ⊆ m.fieldKeys) : visiting.length ≤ m.fieldCount := by
  rw [← m.length_fieldKeys]
  exact (hnodup.subperm hfields).length_le

/-- A depth that is larger than the number of fields that are left does not count. -/
theorem constantWithin_of_enough {depth depth' : Nat} {visiting : List (String × String)}
    (hnodup : visiting.Nodup) (hfields : visiting ⊆ m.fieldKeys)
    (h : m.fieldCount < depth + visiting.length) (h' : m.fieldCount < depth' + visiting.length)
    (className : String) (path : List String) :
    m.constantWithin depth visiting className path =
      m.constantWithin depth' visiting className path := by
  have hlength := length_visiting_le hnodup hfields
  -- With each field that is visited one less is left, and the depth sinks by one.
  induction depth generalizing depth' visiting className path with
  | zero => omega
  | succ depth ih =>
    cases depth' with
    | zero => omega
    | succ depth' =>
      rw [constantWithin, constantWithin]
      generalize fieldOfPath className path = target
      obtain ⟨owner, name⟩ := target
      dsimp only
      cases hfield : m.field? owner name with
      | none => rfl
      | some field =>
        dsimp only
        cases field.initializer with
        | none => rfl
        | some e =>
          by_cases hvisited : visiting.contains (owner, name) = true
          · simp only [hvisited, if_true]
          · have hnew : ((owner, name) :: visiting).Nodup := by
              rw [List.nodup_cons, ← List.contains_iff_mem]
              exact ⟨hvisited, hnodup⟩
            have hknown : (owner, name) :: visiting ⊆ m.fieldKeys :=
              List.cons_subset.mpr ⟨mem_fieldKeys hfield, hfields⟩
            have hreference : m.constantWithin depth ((owner, name) :: visiting) owner =
                m.constantWithin depth' ((owner, name) :: visiting) owner := by
              funext path
              apply ih hnew hknown
              · rw [List.length_cons]
                omega
              · rw [List.length_cons]
                omega
              · exact length_visiting_le hnew hknown
            rw [hreference]

/-- Constants may be looked up to any depth beyond the number of fields. -/
theorem evaluate_eq_within {depth : Nat} (h : m.fieldCount < depth) (className : String)
    (e : Expr) : m.evaluate className e = evaluateWith (m.constantWithin depth [] className) e := by
  have hreference : m.constantWithin (m.fieldCount + 1) [] className =
      m.constantWithin depth [] className := by
    funext path
    exact constantWithin_of_enough List.nodup_nil (List.nil_subset _) (by simp) (by simpa using h)
      className path
  rw [evaluate, hreference]

/-- References have the same values where the same fields are found. -/
theorem constantWithin_of_fields {m m' : Model} (h : m.field? = m'.field?) :
    m.constantWithin = m'.constantWithin := by
  funext depth
  induction depth with
  | zero => rfl
  | succ depth ih =>
    funext visiting className path
    rw [constantWithin, constantWithin, ih, h]

/-- Constants have the same values where the same fields are found. -/
theorem evaluate_of_fields {m m' : Model} (h : m.field? = m'.field?) :
    m.evaluate = m'.evaluate := by
  funext className e
  -- Both are looked up to a depth that is large enough for both.
  have hdepth : m.fieldCount < m.fieldCount + m'.fieldCount + 1 := by omega
  have hdepth' : m'.fieldCount < m.fieldCount + m'.fieldCount + 1 := by omega
  rw [evaluate_eq_within hdepth, evaluate_eq_within hdepth', constantWithin_of_fields h]

end Model

end GatewayPolicy
