import GatewayPolicy.Proofs.Document.Names
import GatewayPolicy.Proofs.Reading.ExpressionSpans

/-! # Markers

  The arguments of a marker are read one after the other, and each can give a name that is
  no constant or that is refused. What is reported on an argument points at it. Arguments
  start in different lines or columns, so a place tells whose report it is.

  - `SafeName` says what a name must be like for a file of this name to stand in the
    directory that it is written to.
  - `SourceTree.arguments_apart` says that arguments have different places.
  - `Part.marker_reports` finds the reports on one argument among all.
-/

namespace GatewayPolicy

/-! ## Names of files -/

/-- A name that leads nowhere but to a file in the directory it is used in. -/
structure SafeName (name : String) : Prop where
  nonempty : name ≠ ""
  slash : '/' ∉ name.toList
  backslash : '\\' ∉ name.toList
  /-- It does not consist of dots only. -/
  dots : ∃ c ∈ name.toList, c ≠ '.'

/-- Apart from the empty name, which stands for none, safe names are accepted. -/
theorem isFileName_iff {name : String} (h : name ≠ "") :
    isFileName name = true ↔ SafeName name := by
  have hne : name.toList ≠ [] := mt String.toList_eq_nil_iff.mp h
  have hall : name.toList.all (· == '.') = false ↔ ∃ c ∈ name.toList, c ≠ '.' := by
    simp [List.all_eq_false]
  unfold isFileName
  constructor
  · intro hname
    simp only [Bool.and_eq_true, Bool.not_eq_true', Bool.or_eq_false_iff, List.contains_eq_mem,
      decide_eq_false_iff_not, List.isEmpty_eq_false_iff.mpr hne, Bool.not_false,
      Bool.true_and] at hname
    exact ⟨h, hname.1.1, hname.1.2, hall.mp hname.2⟩
  · rintro ⟨-, hslash, hbackslash, hdots⟩
    simp [List.contains_eq_mem, hslash, hbackslash, hall.mpr hdots]

/-! ## Lines and columns -/

/-- Characters without a line feed lengthen the last line. -/
theorem lastLine_append {front more : List Char} (h : '\n' ∉ more) :
    lastLine (front ++ more) = lastLine front ++ more := by
  have hmore : ∀ c ∈ more.reverse, decide (c ≠ '\n') = true := by
    intro c hc
    exact decide_eq_true (ne_of_mem_of_not_mem (List.mem_reverse.mp hc) h)
  unfold lastLine List.rtakeWhile
  rw [List.reverse_append, List.takeWhile_append_of_pos hmore, List.reverse_append,
    List.reverse_reverse]

/-- One place in a text stands in front of another, by line and column. -/
def Span.Above (s s' : Span) : Prop :=
  s.line < s'.line ∨ s.line = s'.line ∧ s.column < s'.column

/-- More characters lead to a later line, or to a later column in the same line. -/
theorem Span.Marks.above {s s' : Span} {front more inside inside' : List Char}
    (h : s.Marks front inside) (h' : s'.Marks (front ++ more) inside') (hmore : more ≠ []) :
    s.Above s' := by
  have hline := h.line
  have hline' := h'.line
  rw [List.count_append] at hline'
  by_cases hfeed : '\n' ∈ more
  · left
    have hcount := List.count_pos_iff.mpr hfeed
    omega
  · right
    have hcount := List.count_eq_zero.mpr hfeed
    have hcolumn := h.column
    have hcolumn' := h'.column
    have hlength := List.length_pos_of_ne_nil hmore
    rw [lastLine_append hfeed, List.length_append] at hcolumn'
    exact ⟨by omega, by omega⟩

/-- Tokens of a text stand one behind the other by line and column. -/
theorem Laid.above {before rest : List Char} {ts : List Token} (h : Laid before ts rest) :
    ts.Pairwise fun t u => t.span.Above u.span := by
  induction h with
  | stop _ _ => exact List.pairwise_singleton _ _
  | @token before gap rest t ts _ _ text place behind ih =>
    refine List.pairwise_cons.mpr ⟨?_, ih⟩
    intro u hu
    obtain ⟨more, hmarks⟩ := behind.marks_behind u hu
    rw [List.append_assoc] at hmarks
    exact place.above hmarks (by simpa using fun h => absurd h text)

/-- Expressions that are laid one behind the other start in different places. -/
theorem Expr.LaidWithin.locations_nodup {file : SourceFile} {ts : List Token} {stop : Place}
    (hscan : scan file.text = .ok (ts, stop)) {i j : Nat} {es : List Expr}
    (h : LaidWithin ts i j es) : (es.map fun e => file.location e.span).Nodup := by
  have habove := (List.pairwise_append.mp (laid_of_tokenize (tokenize_of_scan hscan)).above).1
  rw [List.Nodup, List.pairwise_map]
  induction es generalizing i with
  | nil => exact .nil
  | cons e es ih =>
    cases h with
    | cons hle head tail =>
      refine .cons ?_ (ih tail)
      intro e' he' hlocation
      obtain ⟨first, last, hfirst, -, hlaid⟩ := tail.mem he'
      -- each starts with one of its own tokens, and these stand one behind the other
      obtain ⟨x, t, -, hx, ht, hline, hcolumn⟩ := head.span.starts
      obtain ⟨y, u, hy, -, hu, hline', hcolumn'⟩ := hlaid.span.starts
      obtain ⟨-, hline'', hcolumn''⟩ := Location.mk.inj hlocation
      obtain ⟨hx', rfl⟩ := List.getElem?_eq_some_iff.mp ht
      obtain ⟨hy', rfl⟩ := List.getElem?_eq_some_iff.mp hu
      have hbehind := List.pairwise_iff_getElem.mp habove x y hx' hy' (by omega)
      rcases hbehind with hlt | ⟨-, hlt⟩ <;> omega

/-- The arguments of an attribute start in different places. -/
theorem SourceTree.arguments_apart {t : SourceTree} (h : SourceTree.parse t.file = .ok t)
    {decl : ClassDecl} (hdecl : decl ∈ t.classes) {a : AttributeUse} (ha : a ∈ decl.attributes) :
    (a.arguments.map fun x => t.file.location x.value.span).Nodup := by
  obtain ⟨ts, stop, hscan, hread⟩ := SourceTree.declared_read h
  have happlied : .applied a ∈ decl.declared :=
    List.mem_append_left _ (List.mem_map_of_mem ha)
  obtain ⟨c, d, n, m, ⟨front, hfront⟩, hread⟩ := hread decl hdecl _ happlied
  have hplaces : (Grammar.within nestingLimit).Places ts (stop.span []) :=
    Grammar.places_within ts (stop.span []) nestingLimit
  have hc := (Cursor.standsAt_start ts (stop.span [])).takes hfront
  have hcollects := Parse.attributeUse_collects (Parse.assignment_lays hplaces)
  obtain ⟨j, -, hlaid⟩ := hcollects.collects hread hc
  have hapart := hlaid.locations_nodup hscan
  rwa [List.map_map] at hapart

/-! ## Reports on arguments -/

/-- An argument that gives a name to the document. -/
def Argument.GivesName (x : Argument) : Prop := x.name = none ∨ x.name = some "Name"

/-- Where keys tell members apart, what has the key of a member comes from that member. -/
theorem filter_flatMap_of_nodup {α β κ : Type} [DecidableEq κ] {f : α → List β} {key : α → κ}
    {keyOf : β → κ} {as : List α} (hkey : ∀ a, ∀ b ∈ f a, keyOf b = key a)
    (hapart : (as.map key).Nodup) {a : α} (ha : a ∈ as) :
    (as.flatMap f).filter (fun b => keyOf b = key a) = f a := by
  obtain ⟨front, behind, rfl⟩ := List.append_of_mem ha
  rw [List.map_append, List.map_cons, List.nodup_middle, ← List.map_append] at hapart
  have hnew := (List.nodup_cons.mp hapart).1
  have hown : (f a).filter (fun b => keyOf b = key a) = f a :=
    List.filter_eq_self.mpr fun b hb => decide_eq_true (hkey a b hb)
  have hothers : ∀ l ⊆ front ++ behind, (l.flatMap f).filter (fun b => keyOf b = key a) = [] := by
    intro l hl
    rw [List.filter_eq_nil_iff]
    intro b hb
    obtain ⟨y, hy, hb⟩ := List.mem_flatMap.mp hb
    rw [hkey y b hb, decide_eq_true_eq]
    intro heq
    exact hnew (heq ▸ List.mem_map_of_mem (hl hy))
  rw [List.flatMap_append, List.flatMap_cons, List.filter_append, List.filter_append, hown,
    hothers front (List.subset_append_left ..), hothers behind (List.subset_append_right ..),
    List.nil_append, List.append_nil]

namespace Part

variable (p : Part) (m : Model)

/-- What is reported on an argument of a marker. -/
def argumentReports (x : Argument) : List Diagnostic :=
  match x.name with
  | none | some "Name" => (p.markerName m x.value).diagnostics
  | some "Scope" => (p.markerScope m x.value).diagnostics
  | some _ => []

theorem markerArguments_diagnostics (name scope : Option String) (as : List Argument) :
    (p.markerArguments m name scope as).diagnostics = as.flatMap (p.argumentReports m) := by
  induction as generalizing name scope with
  | nil => rfl
  | cons x as ih =>
    rw [List.flatMap_cons]
    unfold markerArguments
    split <;> simp [argumentReports, *]

theorem markerText_located (e : Expr) :
    ∀ d ∈ (p.markerText m e).diagnostics, d.location = p.file.location e.span := by
  unfold markerText
  split
  · exact List.forall_mem_nil _
  · exact List.forall_mem_singleton.mpr rfl

/-- What is reported on a name: that it is no constant, or that it is refused. -/
theorem markerName_diagnostics (e : Expr) :
    (p.markerName m e).diagnostics =
      match m.evaluate p.decl.name e with
      | .error error =>
        [Problem.locatedAt (.documentNameNotConstant error) (p.file.location e.span)]
      | .ok name =>
        if isFileName name then []
        else [Problem.locatedAt (.documentNameNotPlain name) (p.file.location e.span)] := by
  unfold markerName markerText
  cases m.evaluate p.decl.name e with
  | error error => rfl
  | ok name =>
    simp only [Reported.diagnostics_bind, Reported.value_pure, Reported.diagnostics_pure,
      List.nil_append]
    split <;> rfl

/-- Reports on an argument point at it. -/
theorem argumentReports_located (x : Argument) :
    ∀ d ∈ p.argumentReports m x, d.location = p.file.location x.value.span := by
  have hname : ∀ d ∈ (p.markerName m x.value).diagnostics,
      d.location = p.file.location x.value.span := by
    rw [markerName_diagnostics]
    split
    · exact List.forall_mem_singleton.mpr rfl
    · split
      · exact List.forall_mem_nil _
      · exact List.forall_mem_singleton.mpr rfl
  unfold argumentReports
  split
  · exact hname
  · exact hname
  · unfold markerScope
    split
    · exact List.forall_mem_nil _
    · rw [Reported.diagnostics_bind, Reported.diagnostics_pure, List.append_nil]
      exact p.markerText_located m x.value
  · exact List.forall_mem_nil _

theorem argumentReports_of_givesName {x : Argument} (h : x.GivesName) :
    p.argumentReports m x = (p.markerName m x.value).diagnostics := by
  rcases h with h | h <;> simp [argumentReports, h]

/-- At the place of an argument there are the reports on it, and no others. -/
theorem marker_reports {a : AttributeUse} {kind : DocumentKind}
    (hmark : p.decl.mark? = some (a, kind))
    (hapart : (a.arguments.map fun x => p.file.location x.value.span).Nodup) {x : Argument}
    (hx : x ∈ a.arguments) :
    (p.marker m).diagnostics.filter (fun d => d.location = p.file.location x.value.span) =
      p.argumentReports m x := by
  have hdiagnostics : (p.marker m).diagnostics = a.arguments.flatMap (p.argumentReports m) := by
    unfold marker
    rw [hmark, Reported.diagnostics_bind, markerArguments_diagnostics]
    exact List.append_nil _
  rw [hdiagnostics]
  exact filter_flatMap_of_nodup (p.argumentReports_located m) hapart hx

end Part

theorem ClassDecl.mem_of_mark? {c : ClassDecl} {a : AttributeUse} {kind : DocumentKind}
    (h : c.mark? = some (a, kind)) : a ∈ c.attributes := by
  obtain ⟨b, hb, hfound⟩ := List.exists_of_findSome?_eq_some h
  obtain ⟨_, -, hpair⟩ := Option.map_eq_some_iff.mp hfound
  cases hpair
  exact hb

end GatewayPolicy
