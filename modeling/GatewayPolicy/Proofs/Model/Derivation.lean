import GatewayPolicy.Proofs.Model.Constants
import Mathlib.Logic.Relation

/-! # What constants stand for

  The value of a constant expression is given by rules: a literal stands for its text,
  parentheses and casts for what is inside, `-` puts a sign in front, `+` joins two
  texts, and a reference stands for the initializer of the constant that it names, read
  in the class that declares it. A value has a finite derivation by these rules, so a
  constant that depends on itself has none.

  - `Model.Derives` are the rules, and `Model.DependsOn` says which constant refers to
    which.
  - `Model.Derives.acyclic` says that nothing below a derived value depends on itself.
    So no constant is met again while it is being looked up, and every derived value is
    found.
  - `Model.evaluate_derives` is the result: exactly the derived values are found, and a
    cycle is reported only where there is one.
-/

namespace GatewayPolicy

open Relation

/-! ## References -/

/-- The names of a dotted path, in which no question mark stands. -/
inductive Expr.HasPath : Expr → List String → Prop where
  | name (n : String) (span : Span) : HasPath (.name n span) [n]
  | member {target : Expr} {path : List String} (h : target.HasPath path) (n : String)
      (span : Span) : HasPath (.member target n false span) (path ++ [n])

theorem Expr.path?_eq_some_iff {e : Expr} {path : List String} :
    e.path? = some path ↔ e.HasPath path := by
  constructor
  · intro h
    fun_induction Expr.path? e generalizing path with
    | case1 n span =>
      cases h
      exact .name n span
    | case2 target n span ih =>
      obtain ⟨front, hfront, rfl⟩ := Option.map_eq_some_iff.mp h
      exact .member (ih hfront) n span
    | case3 => cases h
  · intro h
    induction h with
    | name n span => rfl
    | member h n span ih => rw [path?, ih, Option.map_some]

theorem Expr.HasPath.unique {e : Expr} {path path' : List String} (h : e.HasPath path)
    (h' : e.HasPath path') : path = path' := by
  rw [← path?_eq_some_iff] at h h'
  exact Option.some.inj (h.symm.trans h')

theorem Expr.HasPath.ne_nil {e : Expr} {path : List String} (h : e.HasPath path) : path ≠ [] := by
  cases h <;> simp

/-- The field that a path names in a class: the last name is the field, and the name before
    it, if there is one, the class that has it. -/
inductive NamesField (className : String) : List String → String × String → Prop where
  | own (field : String) : NamesField className [field] (className, field)
  | qualified (front : List String) (owner field : String) :
      NamesField className (front ++ [owner, field]) (owner, field)

theorem namesField_iff {className : String} {path : List String} (hpath : path ≠ [])
    {key : String × String} :
    NamesField className path key ↔ fieldOfPath className path = key := by
  constructor
  · intro h
    cases h with
    | own field => rfl
    | qualified front owner field => simp [fieldOfPath]
  · rintro rfl
    -- the path is looked at from its end
    obtain ⟨names, rfl⟩ : ∃ names, path = List.reverse names :=
      ⟨path.reverse, path.reverse_reverse.symm⟩
    match names, hpath with
    | [field], _ => exact .own field
    | field :: owner :: front, _ =>
      simpa [fieldOfPath] using NamesField.qualified front.reverse owner field

namespace Model

/-- The first field of a name over all parts of its class. -/
def IsFirstField (m : Model) (key : String × String) (field : FieldDecl) : Prop :=
  ∃ before after, (m.partsOf key.1).flatMap (·.decl.fields) = before ++ field :: after ∧
    field.name = key.2 ∧ ∀ f ∈ before, f.name ≠ key.2

theorem isFirstField_iff {m : Model} {owner name : String} {field : FieldDecl} :
    m.IsFirstField (owner, name) field ↔ m.field? owner name = some field := by
  rw [field?, ← List.find?_flatMap, List.find?_eq_some_iff_append]
  unfold IsFirstField
  constructor
  · rintro ⟨before, after, hfields, hname, hbefore⟩
    refine ⟨beq_iff_eq.mpr hname, before, after, hfields, ?_⟩
    intro f hf
    simpa using hbefore f hf
  · rintro ⟨hname, before, after, hfields, hbefore⟩
    refine ⟨before, after, hfields, eq_of_beq hname, ?_⟩
    intro f hf
    simpa using hbefore f hf

/-- The first field of a name is a constant, and this is its initializer. -/
def IsConstant (m : Model) (key : String × String) (initial : Expr) : Prop :=
  ∃ field, m.IsFirstField key field ∧ field.isConst = true ∧ field.initializer = some initial

theorem IsConstant.unique {m : Model} {key : String × String} {e e' : Expr}
    (h : m.IsConstant key e) (h' : m.IsConstant key e') : e = e' := by
  obtain ⟨owner, name⟩ := key
  obtain ⟨field, hfield, -, hinitial⟩ := h
  obtain ⟨field', hfield', -, hinitial'⟩ := h'
  rw [isFirstField_iff] at hfield hfield'
  obtain rfl : field = field' := Option.some.inj (hfield.symm.trans hfield')
  exact Option.some.inj (hinitial.symm.trans hinitial')

/-! ## Rules -/

/-- The values of expressions in the scope of a class. -/
inductive Derives (m : Model) : String → Expr → String → Prop where
  | literal {className : String} {l : Literal} (hnull : l.kind ≠ .null)
      (hplain : l.kind ≠ .interpolated) : Derives m className (.literal l) l.value
  | null {className : String} {l : Literal} (hnull : l.kind = .null) :
      Derives m className (.literal l) ""
  | paren {className v : String} {inner : Expr} (h : Derives m className inner v) (span : Span) :
      Derives m className (.paren inner span) v
  | cast {className v : String} {operand : Expr} (type : String)
      (h : Derives m className operand v) (span : Span) :
      Derives m className (.cast type operand span) v
  | negate {className v : String} {operand : Expr} (h : Derives m className operand v)
      (span : Span) : Derives m className (.unary .negate operand span) ("-" ++ v)
  | add {className v w : String} {left right : Expr} (hleft : Derives m className left v)
      (hright : Derives m className right w) (span : Span) :
      Derives m className (.binary .add left right span) (v ++ w)
  | constant {className v : String} {e initial : Expr} {path : List String}
      {key : String × String} (hpath : e.HasPath path) (hkey : NamesField className path key)
      (hconstant : m.IsConstant key initial) (h : Derives m key.1 initial v) :
      Derives m className e v

end Model

/-- The references that the value of an expression is put together from. -/
def Expr.Mentions : Expr → List String → Prop
  | .paren inner _, path => inner.Mentions path
  | .cast _ operand _, path => operand.Mentions path
  | .unary .negate operand _, path => operand.Mentions path
  | .binary .add left right _, path => left.Mentions path ∨ right.Mentions path
  | e, path => e.HasPath path

/-- The field that a reference in an expression names. -/
def Expr.RefersTo (className : String) (e : Expr) (key : String × String) : Prop :=
  ∃ path, e.Mentions path ∧ NamesField className path key

/-- A constant whose initializer refers to a field. -/
def Model.DependsOn (m : Model) (key key' : String × String) : Prop :=
  ∃ initial, m.IsConstant key initial ∧ initial.RefersTo key.1 key'

theorem Expr.refersTo_add {className : String} {left right : Expr} {span : Span}
    {key : String × String} : (Expr.binary .add left right span).RefersTo className key ↔
      left.RefersTo className key ∨ right.RefersTo className key := by
  simp only [RefersTo, Mentions, or_and_right, exists_or]

/-- A dotted path is one reference. -/
theorem Expr.HasPath.refersTo_iff {className : String} {e : Expr} {path : List String}
    (h : e.HasPath path) {key : String × String} :
    e.RefersTo className key ↔ NamesField className path key := by
  have hmentions : ∀ path', e.Mentions path' ↔ e.HasPath path' := by
    intro path'
    cases h <;> rfl
  constructor
  · rintro ⟨path', hpath', hkey⟩
    rw [hmentions] at hpath'
    exact h.unique hpath' ▸ hkey
  · intro hkey
    exact ⟨path, (hmentions path).mpr h, hkey⟩

namespace Model

variable {m : Model} {className : String} {e : Expr} {v : String}

/-! ## Values that are found are derived -/

theorem derives_of_evaluateWith {reference : List String → Except SymbolError String}
    (hreference : ∀ {e : Expr} {path : List String} {v : String}, e.HasPath path →
      reference path = .ok v → m.Derives className e v)
    (h : evaluateWith reference e = .ok v) : m.Derives className e v := by
  fun_induction evaluateWith reference e generalizing v with
  | case1 l hkind | case2 l hkind | case3 l hkind =>
    cases h
    exact .literal (by simp [hkind]) (by simp [hkind])
  | case4 l hkind =>
    cases h
    exact .null hkind
  | case5 => cases h
  | case6 inner span ih => exact .paren (ih h) span
  | case7 type operand span ih => exact .cast type (ih h) span
  | case8 operand span ih =>
    cases hoperand : evaluateWith reference operand with
    | error error =>
      rw [hoperand] at h
      cases h
    | ok value =>
      rw [hoperand] at h
      cases h
      exact .negate (ih hoperand) span
  | case9 left right span ihleft ihright =>
    cases hleft : evaluateWith reference left with
    | error error =>
      rw [hleft] at h
      cases h
    | ok a =>
      cases hright : evaluateWith reference right with
      | error error =>
        rw [hleft, hright] at h
        cases h
      | ok b =>
        rw [hleft, hright] at h
        cases h
        exact .add (ihleft hleft) (ihright hright) span
  | case10 n span => exact hreference (.name n span) h
  | case11 target n conditional span path hpath =>
    exact hreference (Expr.path?_eq_some_iff.mp hpath) h
  | case12 | case13 => cases h

theorem derives_of_constantWithin {depth : Nat} {visiting : List (String × String)}
    {path : List String} (hpath : e.HasPath path)
    (h : m.constantWithin depth visiting className path = .ok v) : m.Derives className e v := by
  induction depth generalizing visiting className path e v with
  | zero => cases h
  | succ depth ih =>
    rw [constantWithin] at h
    rcases hkey : fieldOfPath className path with ⟨owner, name⟩
    rw [hkey] at h
    dsimp only at h
    split at h
    · cases h
    · rename_i field hfield
      split at h
      · rename_i hconst
        split at h
        · cases h
        · rename_i initial hinitial
          split at h
          · cases h
          · -- the initializer is derived in the class that declares the constant
            have hinside : m.Derives owner initial v := derives_of_evaluateWith ih h
            have hconstant : m.IsConstant (owner, name) initial :=
              ⟨field, isFirstField_iff.mpr hfield, hconst, hinitial⟩
            exact .constant hpath ((namesField_iff hpath.ne_nil).mpr hkey) hconstant hinside
      · cases h

/-! ## Derived values are found -/

/-- Below an expression that has a value no constant depends on itself. -/
theorem Derives.acyclic (h : m.Derives className e v) {key key' : String × String}
    (hkey : e.RefersTo className key) (hreach : ReflTransGen m.DependsOn key key') :
    ¬TransGen m.DependsOn key' key' := by
  induction h generalizing key key' with
  | literal =>
    obtain ⟨path, hpath, -⟩ := hkey
    cases hpath
  | null =>
    obtain ⟨path, hpath, -⟩ := hkey
    cases hpath
  | paren h span ih => exact ih hkey hreach
  | cast type h span ih => exact ih hkey hreach
  | negate h span ih => exact ih hkey hreach
  | add hleft hright span ihleft ihright =>
    rcases Expr.refersTo_add.mp hkey with hkey | hkey
    · exact ihleft hkey hreach
    · exact ihright hkey hreach
  | @constant className v e initial path named hpath hnamed hconstant h ih =>
    have hsame : ∀ {key}, e.RefersTo className key → key = named := by
      intro key hkey
      have hnames := hpath.refersTo_iff.mp hkey
      rw [namesField_iff hpath.ne_nil] at hnames hnamed
      exact hnames.symm.trans hnamed
    obtain rfl := hsame hkey
    -- what the constant depends on first is mentioned in its initializer
    have hbelow : ∀ {next last}, m.DependsOn key next → ReflTransGen m.DependsOn next last →
        ¬TransGen m.DependsOn last last := by
      rintro next last ⟨initial', hconstant', hrefers⟩ hlast
      rw [hconstant'.unique hconstant] at hrefers
      exact ih hrefers hlast
    intro hcycle
    rcases ReflTransGen.cases_head hreach with rfl | ⟨next, hnext, hrest⟩
    · obtain ⟨next, hnext, hrest⟩ := TransGen.head'_iff.mp hcycle
      exact hbelow hnext hrest hcycle
    · exact hbelow hnext hrest hcycle

/-- A derived value is found, unless one of the constants that it needs is being looked up
    already. -/
theorem Derives.evaluateWith_eq (h : m.Derives className e v) {depth : Nat}
    {visiting : List (String × String)} (hnodup : visiting.Nodup)
    (hfields : visiting ⊆ m.fieldKeys) (hdepth : m.fieldCount < depth + visiting.length)
    (hfree : ∀ key, e.RefersTo className key → ∀ key', ReflTransGen m.DependsOn key key' →
      key' ∉ visiting) :
    evaluateWith (m.constantWithin depth visiting className) e = .ok v := by
  induction h generalizing depth visiting with
  | literal hnull hplain =>
    rw [evaluateWith]
    split <;> simp_all
  | null hnull => rw [evaluateWith, hnull]
  | paren h span ih =>
    rw [evaluateWith]
    exact ih hnodup hfields hdepth hfree
  | cast type h span ih =>
    rw [evaluateWith]
    exact ih hnodup hfields hdepth hfree
  | negate h span ih =>
    rw [evaluateWith, ih hnodup hfields hdepth hfree]
    rfl
  | add hleft hright span ihleft ihright =>
    rw [evaluateWith, ihleft hnodup hfields hdepth, ihright hnodup hfields hdepth]
    · rfl
    · intro key hkey
      exact hfree key (Expr.refersTo_add.mpr (.inr hkey))
    · intro key hkey
      exact hfree key (Expr.refersTo_add.mpr (.inl hkey))
  | @constant className v e initial path key hpath hkey hconstant h ih =>
    have hrefers : e.RefersTo className key := hpath.refersTo_iff.mpr hkey
    have hlookup : evaluateWith (m.constantWithin depth visiting className) e =
        m.constantWithin depth visiting className path := by
      cases hpath with
      | name n span => rfl
      | member htarget n span =>
        rw [evaluateWith, Expr.path?_eq_some_iff.mpr (.member htarget n span)]
    -- the depth is not used up yet, since the constants on the way are different ones
    have hlength := length_visiting_le hnodup hfields
    obtain ⟨depth, rfl⟩ : ∃ k, depth = k + 1 := ⟨depth - 1, by omega⟩
    obtain ⟨owner, name⟩ := key
    obtain ⟨field, hfield, hconst, hinitial⟩ := id hconstant
    rw [isFirstField_iff] at hfield
    rw [namesField_iff hpath.ne_nil] at hkey
    have hnew : (owner, name) ∉ visiting := hfree _ hrefers _ .refl
    rw [hlookup, constantWithin, hkey]
    dsimp only
    rw [hfield]
    dsimp only
    rw [if_pos hconst, hinitial]
    dsimp only
    rw [if_neg (by simpa using hnew)]
    apply ih (List.nodup_cons.mpr ⟨hnew, hnodup⟩)
      (List.cons_subset.mpr ⟨mem_fieldKeys hfield, hfields⟩)
    · rw [List.length_cons]
      omega
    · intro next hnext last hlast hmem
      have hdepends : m.DependsOn (owner, name) next := ⟨initial, hconstant, hnext⟩
      rcases List.mem_cons.mp hmem with rfl | hmem
      · -- a constant that is met again depends on itself
        exact h.acyclic hnext hlast (TransGen.head' hdepends hlast)
      · exact hfree _ hrefers _ (ReflTransGen.head hdepends hlast) hmem

theorem Derives.evaluate_eq (h : m.Derives className e v) : m.evaluate className e = .ok v :=
  h.evaluateWith_eq List.nodup_nil (List.nil_subset _) (by simp)
    fun _ _ _ _ => List.not_mem_nil

/-! ## Cycles -/

/-- A cycle is found in one of the references of an expression. -/
theorem exists_mentions_of_cycle {reference : List String → Except SymbolError String}
    {path : List String} (h : evaluateWith reference e = .error (.cycle path)) :
    ∃ path', e.Mentions path' ∧ path' ≠ [] ∧ reference path' = .error (.cycle path) := by
  fun_induction evaluateWith reference e with
  | case1 | case2 | case3 | case4 | case5 => cases h
  | case6 inner span ih => exact ih h
  | case7 type operand span ih => exact ih h
  | case8 operand span ih =>
    cases hoperand : evaluateWith reference operand with
    | ok value =>
      rw [hoperand] at h
      cases h
    | error error =>
      rw [hoperand] at h
      cases h
      exact ih hoperand
  | case9 left right span ihleft ihright =>
    cases hleft : evaluateWith reference left with
    | error error =>
      rw [hleft] at h
      cases h
      obtain ⟨path', hpath', hcycle⟩ := ihleft hleft
      exact ⟨path', .inl hpath', hcycle⟩
    | ok a =>
      cases hright : evaluateWith reference right with
      | ok b =>
        rw [hleft, hright] at h
        cases h
      | error error =>
        rw [hleft, hright] at h
        cases h
        obtain ⟨path', hpath', hcycle⟩ := ihright hright
        exact ⟨path', .inr hpath', hcycle⟩
  | case10 n span => exact ⟨[n], .name n span, List.cons_ne_nil _ _, h⟩
  | case11 target n conditional span path' hpath =>
    have hpath := Expr.path?_eq_some_iff.mp hpath
    exact ⟨path', hpath, hpath.ne_nil, h⟩
  | case12 | case13 => cases h

/-- A cycle is reported for a constant that depends on itself. The constants that are being
    looked up all depend on the one that is looked at. -/
theorem cycle_of_constantWithin {depth : Nat} {visiting : List (String × String)}
    {path path' : List String} {key : String × String} (hpath : path ≠ [])
    (hkey : NamesField className path key) (hnodup : visiting.Nodup)
    (hfields : visiting ⊆ m.fieldKeys) (hdepth : m.fieldCount < depth + visiting.length)
    (hvisiting : ∀ k ∈ visiting, TransGen m.DependsOn k key)
    (h : m.constantWithin depth visiting className path = .error (.cycle path')) :
    ∃ key', ReflTransGen m.DependsOn key key' ∧ TransGen m.DependsOn key' key' ∧
      ∃ scope, NamesField scope path' key' := by
  induction depth generalizing visiting className path key with
  | zero =>
    have hlength := length_visiting_le hnodup hfields
    omega
  | succ depth ih =>
    have hnames := (namesField_iff hpath).mp hkey
    obtain ⟨owner, name⟩ := key
    rw [constantWithin, hnames] at h
    dsimp only at h
    split at h
    · cases h
    · rename_i field hfield
      split at h
      · rename_i hconst
        split at h
        · cases h
        · rename_i initial hinitial
          split at h
          · rename_i hmem
            cases h
            exact ⟨_, .refl, hvisiting _ (by simpa using hmem), className, hkey⟩
          · rename_i hnew
            obtain ⟨next, hmentions, hne, hcycle⟩ := exists_mentions_of_cycle h
            have hnext : NamesField owner next (fieldOfPath owner next) :=
              (namesField_iff hne).mpr rfl
            have hdepends : m.DependsOn (owner, name) (fieldOfPath owner next) :=
              ⟨initial, ⟨field, isFirstField_iff.mpr hfield, hconst, hinitial⟩,
                next, hmentions, hnext⟩
            have hnew : (owner, name) ∉ visiting := by simpa using hnew
            obtain ⟨last, hreach, hlast⟩ := ih hne hnext (List.nodup_cons.mpr ⟨hnew, hnodup⟩)
              (List.cons_subset.mpr ⟨mem_fieldKeys hfield, hfields⟩)
              (by rw [List.length_cons]; omega)
              (by
                intro k hk
                rcases List.mem_cons.mp hk with rfl | hk
                · exact .single hdepends
                · exact (hvisiting k hk).tail hdepends)
              hcycle
            exact ⟨last, .head hdepends hreach, hlast⟩
      · cases h

/-! ## The result -/

/-- Exactly the derived values of an expression are found. A cycle is reported only where a
    constant that the expression needs depends on itself, and for that constant. However
    deep references are followed beyond the number of fields, the outcome is the same. -/
theorem evaluate_derives (m : Model) (className : String) (e : Expr) :
    (∀ v, m.evaluate className e = .ok v ↔ m.Derives className e v) ∧
    (∀ path, m.evaluate className e = .error (.cycle path) →
      ∃ key key', e.RefersTo className key ∧ ReflTransGen m.DependsOn key key' ∧
        TransGen m.DependsOn key' key' ∧ ∃ scope, NamesField scope path key') ∧
    ∀ depth, m.fieldCount < depth →
      evaluateWith (m.constantWithin depth [] className) e = m.evaluate className e := by
  refine ⟨?_, ?_, ?_⟩
  · intro v
    constructor
    · exact derives_of_evaluateWith derives_of_constantWithin
    · exact Derives.evaluate_eq
  · intro path h
    obtain ⟨next, hmentions, hne, hcycle⟩ := exists_mentions_of_cycle h
    have hnext : NamesField className next (fieldOfPath className next) :=
      (namesField_iff hne).mpr rfl
    obtain ⟨last, hreach, hlast⟩ := cycle_of_constantWithin hne hnext List.nodup_nil
      (List.nil_subset _) (by simp) (List.forall_mem_nil _) hcycle
    exact ⟨_, last, ⟨next, hmentions, hnext⟩, hreach, hlast⟩
  · intro depth hdepth
    exact (evaluate_eq_within hdepth className e).symm

/-- A compilation of one class that has these constants. -/
def ofConstants (className : String) (constants : List (String × Expr)) : Model where
  trees := [{ file := default, classes := [{ (default : ClassDecl) with
    name := className
    members := constants.map fun c => .field { (default : FieldDecl) with
      name := c.1, isConst := true, initializer := some c.2 } }] }]

-- `A` needs `D` twice, along `B` and along `C`, and only `E` depends on itself.
example :
    let m := ofConstants "K" [("A", .binary .add (.name "B" default) (.name "C" default) default),
      ("B", .name "D" default), ("C", .name "D" default),
      ("D", .literal ⟨.string, "x", default⟩), ("E", .paren (.name "E" default) default)]
    m.evaluate "K" (.name "A" default) = .ok "xx" ∧
      m.evaluate "K" (.name "E" default) = .error (.cycle ["E"]) := by
  decide

end Model

end GatewayPolicy
