import GatewayPolicy.Proofs.Document.Dependence
import GatewayPolicy.Proofs.Document.Discovery
import GatewayPolicy.Proofs.Document.Formatting
import GatewayPolicy.Proofs.Document.Sections
import GatewayPolicy.Proofs.Model.Constants

/-! # Adding unrelated files

  Whatever code refers to is looked up by a name that is written in the code, or in
  the class that the code stands in. The same goes for the code of constants that are
  looked up, and so on. So files whose classes are mentioned nowhere in other files do
  not matter to these.

  - `SourceFile.identifiers` lists the words that are written in a file. Compared with
    itself, a tree holds no others (`SourceTree.aligned_itself`).
  - `Model.ExtendedBy` adds parts whose classes are not mentioned in the other parts.
  - `Model.ExtendedBy.evaluate_eq` and `Model.ExtendedBy.code_eq` say that constants keep
    their values and calls of helpers their code.
  - `Model.documents_append` is the result.
-/

namespace GatewayPolicy

/-! ## Comparing everything -/

/-- Compares diagnostics as they are. -/
def Comparison.exact : Comparison := .ofDiagnostics Eq

theorem Emission.Agree.eq_of_exact {e e' : Emission} (h : e.Agree Comparison.exact e') :
    e = e' := by
  have hdiagnostics : e.diagnostics = e'.diagnostics := by
    rw [← List.forall₂_eq_eq_eq]
    exact h.diagnostics
  obtain ⟨nodes, diagnostics, bindings⟩ := e
  obtain ⟨nodes', diagnostics', bindings'⟩ := e'
  obtain ⟨⟨rfl, -⟩, -, rfl⟩ := h
  rw [show diagnostics = diagnostics' from hdiagnostics]

/-! ## Words -/

/-- The identifiers in the text of a file, keywords among them. -/
def SourceFile.identifiers (f : SourceFile) : List String :=
  match tokenize f.text with
  | .ok ts => (ts.filter (·.isIdentifier)).map (·.text)
  | .error _ => []

theorem Alignment.Word.mem_identifiers {f : SourceFile} {x : LexedText f.text} {n : String}
    (h : (Alignment.itself x.tokens).Word n) : n ∈ f.identifiers := by
  obtain ⟨t, t', ⟨-, ht⟩, hidentifier, rfl⟩ := h
  unfold SourceFile.identifiers
  rw [x.tokenize_eq]
  exact List.mem_map_of_mem (List.mem_filter.mpr ⟨ht, hidentifier⟩)

/-- A field is looked up in the class of the code or in a class that is named. -/
theorem fieldOfPath_owner (className : String) (path : List String) :
    (fieldOfPath className path).1 = className ∨ (fieldOfPath className path).1 ∈ path := by
  unfold fieldOfPath
  split
  · exact .inl rfl
  · exact .inl rfl
  · rename_i field owner rest hpath
    right
    rw [← List.mem_reverse, hpath]
    simp

/-- A method is looked up in the class of the code or in a class that is named. -/
theorem calledClass_word {a : Alignment} {className owner : String} {e e' : Expr}
    (h : e.Aligned a e') (howner : calledClass? className e = some owner) :
    owner = className ∨ a.Word owner := by
  have hreceiver := h.receiver_aligned
  unfold calledClass? at howner
  split at howner
  · exact .inl (Option.some.inj howner).symm
  · exact .inl (Option.some.inj howner).symm
  · rename_i receiver _ hr
    rw [hr] at hreceiver
    obtain ⟨path, hpath, hlast⟩ := Option.bind_eq_some_iff.mp howner
    revert hreceiver
    generalize e'.receiver? = receiver'
    intro hreceiver
    cases hreceiver with
    | some hreceiver =>
      exact .inr (Expr.path_words hreceiver hpath owner (List.mem_of_getLast? hlast))

/-! ## Further parts -/

/-- A part of a class with another name than these, in whose code none of these names
    is written. -/
def Part.Avoids (names : List String) (p : Part) : Prop :=
  p.decl.name ∉ names ∧ ∃ a : Alignment, p.file.Aligned Comparison.exact a p.file ∧
    p.decl.Aligned a p.decl ∧ ∀ n, a.Word n → n ∉ names

/-- A compilation with further parts, of classes that the others do not mention. -/
structure Model.ExtendedBy (m : Model) (extra : List Part) (m' : Model) : Prop where
  parts : m'.parts = m.parts ++ extra
  avoids : ∀ p ∈ m.parts, p.Avoids (extra.map (·.decl.name))

namespace Model.ExtendedBy

variable {m m' : Model} {extra : List Part}

theorem partsOf_eq (h : m.ExtendedBy extra m') {className : String}
    (hclass : className ∉ extra.map (·.decl.name)) :
    m.partsOf className = m'.partsOf className := by
  have hextra : extra.filter (·.decl.name == className) = [] := by
    rw [List.filter_eq_nil_iff]
    intro p hp hname
    exact hclass (eq_of_beq hname ▸ List.mem_map_of_mem hp)
  rw [partsOf, partsOf, h.parts, List.filter_append, hextra, List.append_nil]

theorem field?_eq (h : m.ExtendedBy extra m') {owner : String}
    (howner : owner ∉ extra.map (·.decl.name)) (name : String) :
    m.field? owner name = m'.field? owner name := by
  rw [field?, field?, h.partsOf_eq howner]

theorem methodsNamed_eq (h : m.ExtendedBy extra m') {owner : String}
    (howner : owner ∉ extra.map (·.decl.name)) (method : String) :
    m.methodsNamed owner method = m'.methodsNamed owner method := by
  rw [methodsNamed, methodsNamed, h.partsOf_eq howner]

theorem fieldCount_le (h : m.ExtendedBy extra m') : m.fieldCount ≤ m'.fieldCount := by
  rw [fieldCount, fieldCount, h.parts, List.flatMap_append, List.length_append]
  omega

/-! ## Constants -/

/-- References in code of the first parts have the same values. -/
theorem constantWithin_eq (h : m.ExtendedBy extra m') (depth : Nat)
    (visiting : List (String × String)) {className : String}
    (hclass : className ∉ extra.map (·.decl.name)) {path : List String}
    (hpath : ∀ n ∈ path, n ∉ extra.map (·.decl.name)) :
    m.constantWithin depth visiting className path =
      m'.constantWithin depth visiting className path := by
  induction depth generalizing visiting className path with
  | zero => rfl
  | succ depth ih =>
    have howner : (fieldOfPath className path).1 ∉ extra.map (·.decl.name) := by
      rcases fieldOfPath_owner className path with heq | hmem
      · rw [heq]
        exact hclass
      · exact hpath _ hmem
    rw [constantWithin, constantWithin]
    revert howner
    generalize fieldOfPath className path = target
    obtain ⟨owner, name⟩ := target
    intro howner
    dsimp only at howner ⊢
    rw [← h.field?_eq howner]
    cases hfield : m.field? owner name with
    | none => rfl
    | some field =>
      dsimp only
      cases hinitializer : field.initializer with
      | none => rfl
      | some e =>
        -- The initializer is code of a first part again.
        obtain ⟨p, hp, hname, hmem, -⟩ := exists_of_field? hfield
        obtain ⟨-, a, -, hdecl, hwords⟩ := h.avoids p hp
        have he := (List.forall₂_same.mp hdecl.fields field hmem).initializer
        rw [hinitializer] at he
        cases he with
        | some he =>
          have hvalue : evaluateWith (m.constantWithin depth ((owner, name) :: visiting) owner) e =
              evaluateWith (m'.constantWithin depth ((owner, name) :: visiting) owner) e := by
            apply evaluateWith_of_words _ he
            intro path hpath
            exact ih _ howner fun n hn => hwords n (hpath n hn)
          dsimp only
          rw [hvalue]

/-- Constants in code of the first parts have the same values. -/
theorem evaluate_eq (h : m.ExtendedBy extra m') {className : String}
    (hclass : className ∉ extra.map (·.decl.name)) {a : Alignment}
    (hwords : ∀ n, a.Word n → n ∉ extra.map (·.decl.name)) {e e' : Expr} (he : e.Aligned a e') :
    m.evaluate className e = m'.evaluate className e' := by
  -- There may be more fields now, but the first compilation has no use for the depth.
  have hdepth : m.fieldCount < m'.fieldCount + 1 := by
    have hle := h.fieldCount_le
    omega
  rw [evaluate_eq_within hdepth, evaluate]
  apply evaluateWith_of_words _ he
  intro path hpath
  exact h.constantWithin_eq _ _ hclass fun n hn => hwords n (hpath n hn)

/-- Calls in code of the first parts stand for the same code. -/
theorem code_eq (h : m.ExtendedBy extra m') {className : String}
    (hclass : className ∉ extra.map (·.decl.name)) {a : Alignment}
    (hwords : ∀ n, a.Word n → n ∉ extra.map (·.decl.name)) {e e' : Expr} (he : e.Aligned a e')
    (count : Nat) :
    (m.resolve className e count).bind Helper.code? =
      (m'.resolve className e' count).bind Helper.code? := by
  unfold resolve
  rw [← he.methodName_eq, ← calledClass_eq className he]
  split
  · rename_i method owner _ hcalled
    have howner : owner ∉ extra.map (·.decl.name) := by
      rcases calledClass_word he hcalled with heq | hword
      · rw [heq]
        exact hclass
      · exact hwords owner hword
    rw [h.methodsNamed_eq howner]
  · rfl

/-! ## Documents -/

theorem marker_eq (h : m.ExtendedBy extra m') {p : Part} (hp : p ∈ m.parts) :
    p.marker m = p.marker m' := by
  obtain ⟨hclass, a, -, hdecl, hwords⟩ := h.avoids p hp
  apply Part.marker_eq
  intro u hu x hx
  have hattribute := List.forall₂_same.mp hdecl.attributes u hu
  have hargument := List.forall₂_same.mp hattribute.arguments x hx
  cases hargument with
  | mk _ value _ => exact h.evaluate_eq hclass hwords value

/-- A section of the first parts emits the same. -/
theorem emission_eq (h : m.ExtendedBy extra m') {className : String} {kind : DocumentKind}
    {s : SectionMethod} (hs : s ∈ m.sectionMethods className kind) (b : Bindings) :
    s.emission m b = s.emission m' b := by
  have hpart : s.part ∈ m.parts := (List.mem_filter.mp (mem_sectionMethods hs).1).1
  obtain ⟨hclass, a, hfile, hdecl, hwords⟩ := h.avoids s.part hpart
  have hmethod : s.method.Aligned a s.method :=
    List.forall₂_same.mp hdecl.methods s.method (method_mem_of_section hs)
  have haligned : s.AlignedIn Comparison.exact a s := ⟨hfile, rfl, rfl, hmethod⟩
  have hsite : (s.site m).Aligned Comparison.exact a (s.site m') := by
    apply haligned.site_of
    · intro e e' he
      exact h.evaluate_eq hclass hwords he
    · intro e e' he count
      exact h.code_eq hclass hwords he count
  have hagree := haligned.emission_of_site hsite b fun _ _ => .inl fun _ => trivial
  exact hagree.eq_of_exact

/-- A class of the first parts becomes the same document. -/
theorem document?_eq (h : m.ExtendedBy extra m') {className : String}
    (hclass : className ∉ extra.map (·.decl.name)) :
    m.document? className = m'.document? className := by
  apply Model.document?_eq (h.partsOf_eq hclass)
  · intro p hp
    exact h.marker_eq (List.mem_filter.mp hp).1
  · intro kind s hs b
    exact h.emission_eq hs b

/-- The documents stay where they are, and those of the further classes follow. -/
theorem documents_eq (h : m.ExtendedBy extra m') :
    ∃ rest, m'.documents = m.documents ++ rest ∧
      ∀ d ∈ rest, d.className ∈ extra.map (·.decl.name) := by
  obtain ⟨others, hclasses, hothers⟩ : ∃ others, m'.classNames = m.classNames ++ others ∧
      ∀ name ∈ others, name ∈ extra.map (·.decl.name) := by
    refine ⟨((extra.map (·.decl.name)).removeAll (m.parts.map (·.decl.name))).eraseDups, ?_, ?_⟩
    · rw [classNames, classNames, h.parts, List.map_append, List.eraseDups_append]
    · intro name hname
      exact List.mem_of_mem_filter (List.mem_eraseDups.mp hname)
  refine ⟨others.filterMap m'.document?, ?_, ?_⟩
  · have hfirst : m.classNames.filterMap m'.document? = m.documents := by
      apply List.filterMap_congr
      intro className hclass
      obtain ⟨p, hp, rfl⟩ := List.mem_map.mp (List.mem_eraseDups.mp hclass)
      exact (h.document?_eq (h.avoids p hp).1).symm
    rw [documents, hclasses, List.filterMap_append, hfirst]
  · intro d hd
    obtain ⟨className, hclass, hdocument⟩ := List.mem_filterMap.mp hd
    rw [(document?_eq_some hdocument).1]
    exact hothers className hclass

end Model.ExtendedBy

/-! ## Further files -/

/-- Files whose classes have names that are neither classes nor identifiers in others. -/
def Unrelated (ts ts' : List SourceTree) : Prop :=
  ∀ t' ∈ ts', ∀ name ∈ t'.classNames, ∀ t ∈ ts, name ∉ t.classNames ∧ name ∉ t.file.identifiers

/-- Files that were read mention nothing of unrelated files. -/
theorem Unrelated.extendedBy {ts ts' : List SourceTree}
    (hparsed : ∀ t ∈ ts, SourceTree.parse t.file = .ok t) (h : Unrelated ts ts') :
    Model.ExtendedBy { trees := ts } (Model.parts { trees := ts' }) { trees := ts ++ ts' } where
  parts := List.flatMap_append
  avoids := by
    intro p hp
    obtain ⟨t, ht, hpt⟩ := List.mem_flatMap.mp hp
    obtain ⟨decl, hdecl, rfl⟩ := List.mem_map.mp hpt
    obtain ⟨-, x, hcontents⟩ := SourceTree.aligned_itself (hparsed t ht)
    have hunrelated : ∀ n ∈ (Model.parts { trees := ts' }).map (·.decl.name),
        n ∉ t.classNames ∧ n ∉ t.file.identifiers := by
      intro n hn
      rw [Model.map_name_parts] at hn
      obtain ⟨t', ht', hname⟩ := List.mem_flatMap.mp hn
      exact h t' ht' n hname t ht
    refine ⟨?_, .itself x.tokens, t.file.aligned_itself x fun _ => rfl, ?_, ?_⟩
    · intro hmem
      exact (hunrelated _ hmem).1 (List.mem_map_of_mem hdecl)
    · exact List.forall₂_same.mp hcontents.classes decl hdecl
    · intro n hword hmem
      exact (hunrelated n hmem).2 hword.mem_identifiers

/-- Files that are unrelated to those in front of them leave their documents as they
    are. Their own documents follow. -/
theorem Model.documents_append {ts ts' : List SourceTree}
    (hparsed : ∀ t ∈ ts, SourceTree.parse t.file = .ok t) (hunrelated : Unrelated ts ts') :
    ∃ rest, documents { trees := ts ++ ts' } = documents { trees := ts } ++ rest ∧
      ∀ d ∈ rest, ∃ t ∈ ts', d.className ∈ t.classNames := by
  obtain ⟨rest, hdocuments, hrest⟩ := (hunrelated.extendedBy hparsed).documents_eq
  refine ⟨rest, hdocuments, ?_⟩
  intro d hd
  have hclass := hrest d hd
  rw [Model.map_name_parts] at hclass
  exact List.mem_flatMap.mp hclass

/-! ## Constants of one name -/

namespace Addition

/-- A document that is named by a constant of another class. -/
def first : SourceFile where
  name := "first"
  text := "[Document(N.T)]class P\x7b\x7d class N\x7bconst A T=\"p\";\x7d"

/-- A document of a class with a constant of the same name. -/
def second : SourceFile where
  name := "second"
  text := "[Document(T)]class Q\x7bconst A T=\"q\";\x7d"

/-- What is computed from the tree of a file says that there is a tree. -/
theorem exists_tree {α : Type} {f : SourceFile} {g : SourceTree → α} {v : α}
    (h : (SourceTree.parse f).toOption.map g = some v) :
    ∃ t, SourceTree.parse f = .ok t ∧ g t = v := by
  cases hparse : SourceTree.parse f with
  | error e =>
    rw [hparse] at h
    cases h
  | ok t =>
    rw [hparse] at h
    exact ⟨t, rfl, Option.some.inj h⟩

end Addition

open Addition in
/-- The second file is unrelated to the first, which keeps its only document. -/
theorem Model.documents_append_constants :
    ∃ t t', SourceTree.parse first = .ok t ∧ SourceTree.parse second = .ok t' ∧
      Unrelated [t] [t'] ∧ (documents { trees := [t] }).map (·.marker.name) = ["p"] ∧
      ∃ rest, documents { trees := [t] ++ [t'] } = documents { trees := [t] } ++ rest ∧
        ∀ d ∈ rest, d.className = "Q" := by
  have hfirst : (SourceTree.parse first).toOption.map (fun t =>
      (t.classNames, (documents { trees := [t] }).map (·.marker.name))) =
        some (["P", "N"], ["p"]) := by
    decide +kernel
  have hsecond : (SourceTree.parse second).toOption.map (·.classNames) = some ["Q"] := by
    decide +kernel
  have hidentifiers : "Q" ∉ first.identifiers := by
    decide +kernel
  obtain ⟨t, hparse, hcomputed⟩ := exists_tree hfirst
  obtain ⟨t', hparse', hnames'⟩ := exists_tree hsecond
  obtain ⟨hnames, hmarkers⟩ := Prod.mk.inj hcomputed
  have hfile : t.file = first := (SourceTree.aligned_itself hparse).1
  have hparsed : ∀ u ∈ [t], SourceTree.parse u.file = .ok u := by
    rw [List.forall_mem_singleton, hfile]
    exact hparse
  have hunrelated : Unrelated [t] [t'] := by
    unfold Unrelated
    simp only [List.forall_mem_singleton]
    rw [hnames, hnames', hfile]
    exact List.forall_mem_singleton.mpr ⟨by decide, hidentifiers⟩
  obtain ⟨rest, hrest, hclass⟩ := documents_append hparsed hunrelated
  refine ⟨t, t', hparse, hparse', hunrelated, hmarkers, rest, hrest, ?_⟩
  intro d hd
  obtain ⟨u, hu, hmem⟩ := hclass d hd
  rw [List.mem_singleton.mp hu, hnames'] at hmem
  exact List.mem_singleton.mp hmem

end GatewayPolicy
