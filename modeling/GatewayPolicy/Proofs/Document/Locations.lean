import GatewayPolicy.Proofs.Document.Unrelated

/-! # Diagnostics point at code

  A diagnostic names a file, a line and a column. They are taken from the place of a
  piece of syntax, which may have been joined from several others, and the constants
  and helper methods that the piece depends on may stand in other files.

  - `Span.StartsIn` says that a place starts where a token does, and not at the end of
    the text if all offsets fit into a word. Joining places keeps this, since the joined
    place starts where one of them does, and in such a text where the first of them does.
  - `Alignment.anchored` compares a text with itself and claims this of every place in
    its syntax; `Comparison.claiming` claims something of every diagnostic. So what is
    known of reading and compiling two texts alike also holds for one text, and says
    where its diagnostics can point.
  - `compile_locations` is the result.
-/

namespace GatewayPolicy

/-! ## Places that start at a token -/

/-- A place that starts where one of these tokens does, and in a text that is `short` not at
    its end. -/
def Span.StartsIn (short : Prop) (ts : List Token) (s : Span) : Prop :=
  ∃ t ∈ ts, (short → t.isEof = false) ∧ s.start = t.span.start ∧ s.line = t.span.line ∧
    s.column = t.span.column

/-- A place that starts behind the start of every token but the end, in a text that is
    `short`. -/
def Span.StartsBehind (short : Prop) (ts : List Token) (s : Span) : Prop :=
  short ∧ ∀ t ∈ ts, t.isEof = false → t.span.start < s.start

section Anchored

variable {short : Prop} {ts : List Token}

theorem Span.StartsIn.of_mem {t : Token} (h : t ∈ ts) (hinside : short → t.isEof = false) :
    t.span.StartsIn short ts :=
  ⟨t, h, hinside, rfl, rfl, rfl⟩

/-- Of two places that are joined, one that starts behind all tokens is not the first. -/
theorem Span.StartsIn.cover {r s : Span} (hr : r.StartsIn short ts ∨ r.StartsBehind short ts)
    (hs : s.StartsIn short ts) : (r.cover s).StartsIn short ts := by
  unfold Span.cover
  split
  · rename_i hle
    rcases hr with hr | ⟨hshort, hbehind⟩
    · exact hr
    · obtain ⟨t, ht, hinside, hstart, -⟩ := hs
      have hlt := hbehind t ht (hinside hshort)
      omega
  · exact hs

theorem Token.startsIn_or_startsBehind
    (hlast : short → ∀ t ∈ ts, t.isEof = true → t.span.StartsBehind short ts) {t : Token}
    (h : t ∈ ts) : t.span.StartsIn short ts ∨ t.span.StartsBehind short ts := by
  by_cases hshort : short
  · cases heof : t.isEof with
    | false => exact .inl (.of_mem h fun _ => heof)
    | true => exact .inr (hlast hshort t h heof)
  · exact .inl (.of_mem h fun hshort' => absurd hshort' hshort)

end Anchored

/-- A text and itself, with places that start at tokens only. -/
def Alignment.anchored (short : Prop) (ts : List Token)
    (hlast : short → ∀ t ∈ ts, t.isEof = true → t.span.StartsBehind short ts) : Alignment where
  __ := Alignment.itself ts
  place s s' := s = s' ∧ (s.StartsIn short ts ∨ s.StartsBehind short ts)
  span s s' := s = s' ∧ s.StartsIn short ts
  place_of h := ⟨congrArg Token.span h.1, Token.startsIn_or_startsBehind hlast h.2⟩
  span_of h hinside := ⟨congrArg Token.span h.1, .of_mem h.2 fun _ => hinside⟩
  place_span h := ⟨h.1, .inl h.2⟩
  cover hr hs := ⟨congrArg₂ Span.cover hr.1 hs.1, .cover hr.2 hs.2⟩

/-- The end of a text starts behind all of its other tokens. -/
theorem LexedText.startsBehind_of_isEof {f : SourceFile} (x : LexedText f.text)
    (hfits : f.text.utf8ByteSize < UInt32.size) : ∀ t ∈ x.tokens, t.isEof = true →
      t.span.StartsBehind (f.text.utf8ByteSize < UInt32.size) x.tokens := by
  intro t ht heof
  refine ⟨hfits, fun u hu hinside => ?_⟩
  rcases List.mem_append.mp ht with ht | hstop
  · rw [x.not_eof_of_mem_lexemes ht] at heof
    cases heof
  rcases List.mem_append.mp hu with hu | hstop'
  · exact ((List.pairwise_append.mp (x.tokens_before hfits)).2.2 u hu t hstop).start
  · rw [List.mem_singleton.mp hstop'] at hinside
    cases hinside

/-- A file and itself, with places that start at its tokens. -/
def LexedText.anchored {f : SourceFile} (x : LexedText f.text) : Alignment :=
  .anchored (f.text.utf8ByteSize < UInt32.size) x.tokens x.startsBehind_of_isEof

/-- A location at which a token of a file starts, other than the end of the file if all
    offsets in it fit into a word. -/
def SourceFile.HasTokenAt (f : SourceFile) (l : Location) : Prop :=
  l.file = f.name ∧ ∃ ts, tokenize f.text = .ok ts ∧
    ∃ t ∈ ts, (f.text.utf8ByteSize < UInt32.size → t.isEof = false) ∧
      l.line = t.span.line ∧ l.column = t.span.column

theorem SourceFile.hasTokenAt_location {f : SourceFile} (x : LexedText f.text) {s : Span}
    (h : s.StartsIn (f.text.utf8ByteSize < UInt32.size) x.tokens) :
    f.HasTokenAt (f.location s) := by
  obtain ⟨t, ht, hinside, -, hline, hcolumn⟩ := h
  exact ⟨rfl, x.tokens, x.tokenize_eq, t, ht, hinside, hline, hcolumn⟩

/-! ## What is claimed of diagnostics -/

/-- Claims something of every diagnostic. -/
def Comparison.claiming (P : Diagnostic → Prop) : Comparison := .ofDiagnostics fun d _ => P d

/-- What is reported about the syntax of a file is located at one of its tokens. -/
theorem SourceFile.aligned_anchored {f : SourceFile} (x : LexedText f.text)
    {P : Diagnostic → Prop} (h : ∀ d, f.HasTokenAt d.location → P d) :
    f.Aligned (.claiming P) x.anchored f where
  name := rfl
  token ht := by rw [ht.1]
  code hs := by rw [hs.1]
  block hs := by rw [hs.span.1]
  named := (SourceFile.aligned_itself (C := .exact) x fun _ => rfl).named
  numeral := (SourceFile.aligned_itself (C := .exact) x fun _ => rfl).numeral
  report p _ _ hs := h _ (f.hasTokenAt_location x hs.2)
  noOperation _ hs := h _ (f.hasTokenAt_location x hs.2)
  unresolved _ hs := h _ (f.hasTokenAt_location x hs.2)

/-! ## Documents -/

section Documents

variable {ts : List SourceTree}

/-- A location at a token of a file that declares a part of the class. -/
def LocatedIn (ts : List SourceTree) (className : String) (d : Diagnostic) : Prop :=
  ∃ t ∈ ts, className ∈ t.classNames ∧ t.file.HasTokenAt d.location

/-- Constants and helper methods of a model are those of the model itself. -/
theorem Model.aligned_exact (hparsed : ∀ t ∈ ts, SourceTree.parse t.file = .ok t) :
    Model.Aligned Comparison.exact { trees := ts } { trees := ts } := by
  apply Model.aligned_of_trees
  rw [List.forall₂_same]
  intro t ht
  obtain ⟨-, x, hcontents⟩ := SourceTree.aligned_itself (hparsed t ht)
  exact ⟨.itself x.tokens, t.file.aligned_itself x fun _ => rfl, hcontents⟩

/-- Whatever is reported about a part of a class is located in the part's own file. -/
theorem Part.aligned_located (hparsed : ∀ t ∈ ts, SourceTree.parse t.file = .ok t)
    {className : String} {p : Part} (hp : p ∈ Model.partsOf { trees := ts } className) :
    p.Aligned (.claiming (LocatedIn ts className)) p := by
  obtain ⟨hp, hname⟩ := List.mem_filter.mp hp
  obtain ⟨t, ht, hpt⟩ := List.mem_flatMap.mp hp
  obtain ⟨decl, hdecl, rfl⟩ := List.mem_map.mp hpt
  obtain ⟨-, x, hcontents⟩ := SourceTree.aligned_same (hparsed t ht)
  have hclass : className ∈ t.classNames := by
    rw [← eq_of_beq hname]
    exact List.mem_map_of_mem hdecl
  have hclasses := (hcontents x.anchored fun _ hu => ⟨rfl, hu⟩).classes
  refine ⟨x.anchored, t.file.aligned_anchored x ?_, ?_⟩
  · intro d hd
    exact ⟨t, ht, hclass, hd⟩
  · exact List.forall₂_same.mp hclasses decl hdecl

theorem Model.documents_located (hparsed : ∀ t ∈ ts, SourceTree.parse t.file = .ok t)
    {d : CompiledDocument} (hd : d ∈ Model.documents { trees := ts }) :
    ∀ x ∈ d.diagnostics, LocatedIn ts d.className x := by
  obtain ⟨className, hclass, hdocument⟩ := List.mem_filterMap.mp hd
  have hparts : List.Forall₂ (Part.Aligned (.claiming (LocatedIn ts className)))
      (Model.partsOf { trees := ts } className) (Model.partsOf { trees := ts } className) :=
    List.forall₂_same.mpr fun _ hp => Part.aligned_located hparsed hp
  have hself := Model.document_rel (Model.aligned_exact hparsed).matched
    (Model.supplies_of_text fun _ => trivial) hparts hclass
  rw [hdocument] at hself
  obtain ⟨rfl, -⟩ := Model.document?_eq_some hdocument
  cases hself with
  | some hagree =>
    intro x hx
    exact List.forall₂_same.mp hagree.diagnostics x hx

end Documents

/-! ## Files -/

/-- Every tree that is compiled is that of one of the files. -/
theorem mem_parseAll {files : List SourceFile} {ts : List SourceTree}
    (h : parseAll files = .ok ts) : ∀ t ∈ ts, t.file ∈ files ∧ SourceTree.parse t.file = .ok t := by
  intro t ht
  obtain ⟨f, hf, hparse⟩ := (mem_of_mapM h).2 t ht
  obtain ⟨rfl, -⟩ := SourceTree.aligned_itself hparse
  exact ⟨hf, hparse⟩

/-- Every diagnostic of a document is located where a token starts, in a file that declares
    a part of the document's class. -/
theorem compile_locations {files : List SourceFile} {documents : List CompiledDocument}
    (h : compile files = .ok documents) :
    ∀ d ∈ documents, ∀ x ∈ d.diagnostics,
      ∃ f ∈ files, ∃ t, SourceTree.parse f = .ok t ∧ d.className ∈ t.classNames ∧
        f.HasTokenAt x.location := by
  intro d hd x hx
  cases hparse : parseAll files with
  | error e =>
    rw [compile, hparse] at h
    cases h
  | ok ts =>
    rw [compile, hparse] at h
    cases h
    have htrees := mem_parseAll hparse
    obtain ⟨t, ht, hclass, hlocation⟩ :=
      Model.documents_located (fun t ht => (htrees t ht).2) hd x hx
    exact ⟨t.file, (htrees t ht).1, t, (htrees t ht).2, hclass, hlocation⟩

namespace Scattered

/-- The part of a class that carries its marker. -/
def marked : SourceFile where
  name := "marked"
  text := "[Document]class C\x7b\x7d"

/-- A part of the same class, with a section that has no body. -/
def bodiless : SourceFile where
  name := "bodiless"
  text := "class C\x7b\nA Inbound(B c);\x7d"

end Scattered

open Scattered in
/-- The section is reported where its name starts, in the file that it stands in. -/
theorem compile_locations_scattered :
    ∃ documents, compile [marked, bodiless] = .ok documents ∧
      documents.map (fun d => (d.className, d.source)) = [("C", "marked")] ∧
      documents.flatMap (·.diagnostics.map (·.location)) =
        [{ file := "bodiless", line := 2, column := 3 }] ∧
      ∀ d ∈ documents, ∀ x ∈ d.diagnostics,
        ∃ f ∈ [marked, bodiless], ∃ t, SourceTree.parse f = .ok t ∧
          d.className ∈ t.classNames ∧ f.HasTokenAt x.location := by
  have hcompiled : (compile [marked, bodiless]).toOption.map (fun documents =>
      (documents.map (fun d => (d.className, d.source)),
        documents.flatMap (·.diagnostics.map (·.location)))) =
      some ([("C", "marked")], [{ file := "bodiless", line := 2, column := 3 }]) := by
    decide +kernel
  cases hcompile : compile [marked, bodiless] with
  | error e =>
    rw [hcompile] at hcompiled
    cases hcompiled
  | ok documents =>
    rw [hcompile] at hcompiled
    obtain ⟨hsources, hlocations⟩ := Prod.mk.inj (Option.some.inj hcompiled)
    exact ⟨documents, rfl, hsources, hlocations, compile_locations hcompile⟩

end GatewayPolicy
