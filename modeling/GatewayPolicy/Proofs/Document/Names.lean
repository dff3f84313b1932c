import GatewayPolicy.Proofs.Document.Unrelated

/-! # Names of documents

  A document is written to a file of its name. The name is given by the marker, where
  it is checked, or else it is the name of the class, which is a name of the language.

  - `isFileName_of_spelt` says that names of the language are names of files.
  - `Model.documents_isFileName` says this of the names of all documents.
-/

namespace GatewayPolicy

/-! ## Names of the language -/

/-- A text that is spelled like a name can be the name of a file. -/
theorem isFileName_of_spelt {name : String} {c : Char} {cs : List Char}
    (hchars : name.toList = c :: cs) (hstart : c = '@' ∨ Text.startsName c = true)
    (hrest : cs.all Text.continuesName = true) : isFileName name = true := by
  have hnotMem : ∀ x : Char, x ≠ '@' → Text.startsName x = false → Text.continuesName x = false →
      x ∉ c :: cs := by
    intro x hat hs hc hx
    rcases List.mem_cons.mp hx with rfl | hx
    · rcases hstart with rfl | hstart
      · exact hat rfl
      · rw [hs] at hstart
        cases hstart
    · have hx := List.all_eq_true.mp hrest x hx
      rw [hc] at hx
      cases hx
  have hslash := hnotMem '/' (by decide) (by decide) (by decide)
  have hbackslash := hnotMem '\\' (by decide) (by decide) (by decide)
  have hdot := hnotMem '.' (by decide) (by decide) (by decide)
  have hc : c ≠ '.' := fun h => hdot (h ▸ List.mem_cons_self)
  unfold isFileName
  rw [hchars]
  simp [hc, List.contains_eq_mem, hslash, hbackslash]

/-! ## Markers -/

namespace Part

/-- A name that a marker gives has been checked. -/
theorem markerName_isFileName (p : Part) (m : Model) (e : Expr) :
    ∀ n ∈ (p.markerName m e).value, isFileName n = true := by
  unfold markerName
  rw [Reported.value_bind]
  split
  · exact nofun
  · rename_i name
    split
    · rename_i hname
      rintro _ ⟨⟩
      exact hname
    · exact nofun

/-- Of the names that arguments give, one that has been checked is left. -/
theorem markerArguments_isFileName (p : Part) (m : Model) (name scope : Option String)
    (arguments : List Argument) (hname : ∀ n ∈ name, isFileName n = true) :
    ∀ n ∈ (p.markerArguments m name scope arguments).value.1, isFileName n = true := by
  induction arguments generalizing name scope with
  | nil => exact hname
  | cons a as ih =>
    unfold markerArguments
    split
    · exact ih _ scope (p.markerName_isFileName m a.value)
    · exact ih _ scope (p.markerName_isFileName m a.value)
    · exact ih name _ hname
    · exact ih name scope hname

/-- A marker gives a name that has been checked, or the name of the class. -/
theorem marker_isFileName {p : Part} {m : Model} {marker : Marker}
    (hclass : isFileName p.decl.name = true ∧ p.decl.name ≠ "")
    (h : (p.marker m).value = some marker) :
    isFileName marker.name = true ∧ marker.name ≠ "" := by
  unfold Part.marker at h
  split at h
  · cases h
  · rename_i a kind _
    have hgiven := p.markerArguments_isFileName m none none a.arguments nofun
    cases h
    revert hgiven
    generalize (p.markerArguments m none none a.arguments).value.1 = given
    intro hgiven
    cases given with
    | none => exact hclass
    | some name =>
      by_cases hempty : name.isEmpty = true
      · simpa [Option.filter, hempty] using hclass
      · have hname := hgiven name rfl
        simp only [Option.filter, hempty]
        refine ⟨hname, ?_⟩
        rintro rfl
        exact hempty rfl

end Part

/-! ## Documents -/

/-- The name of a class that was read is a name of the language. -/
theorem SourceTree.className_isFileName {t : SourceTree}
    (h : SourceTree.parse t.file = .ok t) {decl : ClassDecl} (hdecl : decl ∈ t.classes) :
    isFileName decl.name = true ∧ decl.name ≠ "" := by
  obtain ⟨-, x, hcontents⟩ := SourceTree.aligned_itself h
  have hnamed := (List.forall₂_same.mp hcontents.classes decl hdecl).named
  obtain ⟨u, -, ⟨-, hu⟩, hname, hdeclName⟩ := hnamed
  obtain ⟨i, hi⟩ := List.mem_iff_getElem?.mp hu
  obtain ⟨c, cs, hchars, hstart, hrest⟩ := x.chars_of_isName hi hname
  rw [hdeclName] at hchars
  refine ⟨isFileName_of_spelt hchars hstart hrest, ?_⟩
  intro hempty
  rw [hempty] at hchars
  cases hchars

/-- Every document of files that were read has a name that a file can have. -/
theorem Model.documents_isFileName {ts : List SourceTree}
    (hparsed : ∀ t ∈ ts, SourceTree.parse t.file = .ok t) {d : CompiledDocument}
    (hd : d ∈ Model.documents { trees := ts }) :
    isFileName d.marker.name = true ∧ d.marker.name ≠ "" := by
  obtain ⟨-, p, hfirst, hcompiles⟩ := Model.document?_eq_some (Model.mem_documents.mp hd)
  obtain ⟨t, ht, hpt⟩ := List.mem_flatMap.mp hfirst.mem_parts
  obtain ⟨decl, hdecl, rfl⟩ := List.mem_map.mp hpt
  exact Part.marker_isFileName (SourceTree.className_isFileName (hparsed t ht) hdecl)
    hcompiles.marker

end GatewayPolicy
