import GatewayPolicy.Proofs.Document.Agreement
import GatewayPolicy.Proofs.Reading.SameTokens

/-! # Formatting does not change meaning

  Two files may differ in blanks, line breaks, comments and directives, as long as
  they have the same tokens and the same tokens touch. They are then compiled to
  the same documents. What may differ is where problems are reported, and the
  layout of code that a report quotes.

  - `SourceFile.SameTokens` compares files.
  - `CompiledDocument.SameMeaning` compares what they are compiled to.
  - `compile_formatting` is the result.
-/

namespace GatewayPolicy

/-! ## Files -/

/-- Files of one name whose texts have the same tokens, of which the same touch.
    The blanks at the end of a text do not count. -/
structure SourceFile.SameTokens (f f' : SourceFile) : Prop where
  name : f.name = f'.name
  tokens : ∃ ts ts', tokenize f.text = .ok ts ∧ tokenize f'.text = .ok ts' ∧
    ts.map Token.face = ts'.map Token.face ∧ touchesOf ts.dropLast = touchesOf ts'.dropLast

/-- Whether two files have the same tokens can be computed. -/
instance (f f' : SourceFile) : Decidable (f.SameTokens f') :=
  match h : tokenize f.text, h' : tokenize f'.text with
  | .ok ts, .ok ts' =>
    decidable_of_iff (f.name = f'.name ∧ ts.map Token.face = ts'.map Token.face ∧
        touchesOf ts.dropLast = touchesOf ts'.dropLast)
      ⟨fun ⟨hname, hfaces, htouches⟩ => ⟨hname, ts, ts', h, h', hfaces, htouches⟩,
        fun ⟨hname, us, us', hus, hus', hfaces, htouches⟩ => by
          cases h.symm.trans hus
          cases h'.symm.trans hus'
          exact ⟨hname, hfaces, htouches⟩⟩
  | .error _, _ => isFalse fun ⟨_, _, _, hus, _⟩ => nomatch h.symm.trans hus
  | _, .error _ => isFalse fun ⟨_, _, _, _, hus', _⟩ => nomatch h'.symm.trans hus'

/-- Diagnostics of one problem in one file, apart from the line and column and
    from the trivia in quoted code. -/
inductive Diagnostic.SameProblem : Diagnostic → Diagnostic → Prop where
  | same (p : Problem) {l l' : Location} (file : l.file = l'.file) :
      SameProblem (p.locatedAt l) (p.locatedAt l')
  | noOperation {code code' : String} {l l' : Location} (file : l.file = l'.file)
      (quoted : stripTrivia code = stripTrivia code') :
      SameProblem ((Problem.noOperation code).locatedAt l)
        ((Problem.noOperation code').locatedAt l')
  | unresolvedCode {code code' : String} {l l' : Location} (file : l.file = l'.file)
      (quoted : stripTrivia code = stripTrivia code') :
      SameProblem ((Problem.unresolvedCode code).locatedAt l)
        ((Problem.unresolvedCode code').locatedAt l')

theorem Diagnostic.SameProblem.code_eq {d d' : Diagnostic} (h : d.SameProblem d') :
    d.code = d'.code := by
  cases h <;> rfl

section Files

variable {f f' : SourceFile} (x : LexedText f.text) (x' : LexedText f'.text)
  (hfits : f.text.utf8ByteSize < UInt32.size) (hfits' : f'.text.utf8ByteSize < UInt32.size)

/-- The alignment of two texts with the same tokens. -/
def LexedText.alignment (hfaces : x.tokens.map Token.face = x'.tokens.map Token.face) : Alignment :=
  .ofTokens x.tokens x'.tokens hfaces (x.tokens_before hfits) (x'.tokens_before hfits')

variable {x x'} (hfaces : x.tokens.map Token.face = x'.tokens.map Token.face)
  (htouches : touchesOf x.tokens.dropLast = touchesOf x'.tokens.dropLast)

include hfits hfits' hfaces htouches

theorem joinTokens_tokens_eq (i k : Nat) :
    joinTokens none (((placeLexemes Place.start x.lexemes).drop i).take k) =
      joinTokens none (((placeLexemes Place.start x'.lexemes).drop i).take k) := by
  rw [← x.dropLast_tokens, ← x'.dropLast_tokens]
  refine joinTokens_stretch_eq ?_ htouches ?_ ?_ i k
  · rw [List.map_dropLast, List.map_dropLast, hfaces]
  · exact (x.tokens_before hfits).sublist (List.dropLast_sublist _)
  · exact (x'.tokens_before hfits').sublist (List.dropLast_sublist _)

variable {hfits hfits'}

/-- Corresponding places hold the same code. -/
theorem stripTrivia_slice_eq {s s' : Span} (h : (x.alignment x' hfits hfits' hfaces).span s s') :
    stripTrivia (f.slice s) = stripTrivia (f'.slice s') := by
  obtain ⟨i, j, ⟨hij, t, u, ht, hu, hs⟩, -, t', u', ht', hu', hs'⟩ := h
  have hcode := x.stripTrivia_between hfits hij ht hu (s := s) (by rw [hs]) (by rw [hs])
  have hcode' := x'.stripTrivia_between hfits' hij ht' hu' (s := s') (by rw [hs']) (by rw [hs'])
  rw [hcode, hcode', joinTokens_tokens_eq hfits hfits' hfaces htouches]

/-- Corresponding braces hold the same code. -/
theorem stripTrivia_braces_eq {s s' : Span} (h : (x.alignment x' hfits hfits' hfaces).Braced s s') :
    stripTrivia (withoutBraces (f.slice s)) = stripTrivia (withoutBraces (f'.slice s')) := by
  have hspan := h.span
  obtain ⟨t, t', u, u', htoken, hutoken, hopen, hclose, rfl, rfl⟩ := h
  have hopen' := (Alignment.isSymbol_eq htoken _).symm.trans hopen
  have hclose' := (Alignment.isSymbol_eq hutoken _).symm.trans hclose
  simp only [Token.isSymbol, decide_eq_true_eq] at hopen hclose hopen' hclose'
  obtain ⟨i, ht, ht'⟩ := htoken
  obtain ⟨j, hu, hu'⟩ := hutoken
  rcases Nat.lt_trichotomy i j with hij | rfl | hji
  · obtain ⟨hstart, hstop⟩ := cover_of_le (x.tokens_before hfits) ht hu (Nat.le_of_lt hij)
    obtain ⟨hstart', hstop'⟩ := cover_of_le (x'.tokens_before hfits') ht' hu' (Nat.le_of_lt hij)
    rw [x.stripTrivia_braces hfits hij ht hu hopen hclose hstart hstop,
      x'.stripTrivia_braces hfits' hij ht' hu' hopen' hclose' hstart' hstop',
      joinTokens_tokens_eq hfits hfits' hfaces htouches]
  · -- no token is both
    rw [Option.some.inj (ht.symm.trans hu), hclose] at hopen
    cases hopen
  · -- the braces stand the wrong way round, so none are taken off
    have hfirst := (before_of_lt (x.tokens_before hfits) hu ht hji).1
    have hfirst' := (before_of_lt (x'.tokens_before hfits') hu' ht' hji).1
    have hstart : (t.span.cover u.span).start = u.span.start := by
      rw [Span.cover_start]
      omega
    have hstart' : (t'.span.cover u'.span).start = u'.span.start := by
      rw [Span.cover_start]
      omega
    rw [x.withoutBraces_of_close hfits hu hclose hstart,
      x'.withoutBraces_of_close hfits' hu' hclose' hstart']
    exact stripTrivia_slice_eq hfaces htouches hspan

/-- Texts with the same tokens agree wherever they are copied or quoted. -/
theorem SourceFile.aligned_of_tokens {C : Comparison} (hname : f.name = f'.name)
    (hC : ∀ {d d' : Diagnostic}, d.SameProblem d' → C.diagnostic d d') :
    f.Aligned C (x.alignment x' hfits hfits' hfaces) f' where
  name := hname
  token := by
    rintro t t' ⟨i, ht, ht'⟩
    rw [x.slice_token hfits ht, x'.slice_token hfits' ht']
    exact congrArg Prod.snd (face_eq_of_getElem? hfaces ht ht')
  code := stripTrivia_slice_eq hfaces htouches
  block := stripTrivia_braces_eq hfaces htouches
  named := by
    rintro name ⟨t, t', ⟨i, ht, -⟩, hisName, rfl⟩
    exact x.not_isInline_of_isName ht hisName
  numeral := by
    rintro value ⟨t, t', ⟨i, ht, -⟩, hnumber, rfl⟩
    exact x.not_isInline_digitsOf ht hnumber
  report p _ _ _ := hC (.same p hname)
  noOperation hr _ := hC (.noOperation hname (stripTrivia_slice_eq hfaces htouches hr))
  unresolved hr _ := hC (.unresolvedCode hname (stripTrivia_slice_eq hfaces htouches hr))

end Files

/-- Files with the same tokens are read alike. -/
theorem SourceFile.SameTokens.readAlike {C : Comparison} {f f' : SourceFile} (h : f.SameTokens f')
    (hfits : f.text.utf8ByteSize < UInt32.size) (hfits' : f'.text.utf8ByteSize < UInt32.size)
    (hC : ∀ {d d' : Diagnostic}, d.SameProblem d' → C.diagnostic d d') : f.ReadAlike C f' := by
  obtain ⟨hname, ts, ts', htokens, htokens', hfaces, htouches⟩ := h
  obtain ⟨x, rfl⟩ := LexedText.exists_of_tokenize htokens
  obtain ⟨x', rfl⟩ := LexedText.exists_of_tokenize htokens'
  have hlength : x.lexemes.length = x'.lexemes.length := by
    have hlengths := congrArg List.length hfaces
    simpa [LexedText.tokens] using hlengths
  -- tokens correspond by their indices, and the ends of the texts come last
  refine ⟨x.alignment x' hfits hfits' hfaces, _, _, _, _,
    SourceFile.aligned_of_tokens hfaces htouches hname hC, x.scan_eq, x'.scan_eq, ?_, ?_⟩
  · refine Alignment.runs_of_touches ?_ ?_ htouches fun i t t' ht ht' => ⟨i, ?_, ?_⟩
    · rw [x.dropLast_tokens]
      exact fun t => x.not_eof_of_mem_lexemes
    · simp [LexedText.tokens, hlength]
    · exact x.getElem?_of_dropLast ht
    · exact x'.getElem?_of_dropLast ht'
  · refine ⟨x.lexemes.length, x.getElem?_eof, ?_⟩
    rw [hlength]
    exact x'.getElem?_eof

/-! ## Documents -/

/-- Documents with the same meaning. -/
structure CompiledDocument.SameMeaning (d d' : CompiledDocument) : Prop where
  marker : d.marker = d'.marker
  className : d.className = d'.className
  source : d.source = d'.source
  root : d.root = d'.root
  codes : d.diagnostics.map (·.code) = d'.diagnostics.map (·.code)
  diagnostics : List.Forall₂ Diagnostic.SameProblem d.diagnostics d'.diagnostics

/-- Compares problems and nothing else. -/
def Comparison.problems : Comparison := .ofDiagnostics Diagnostic.SameProblem

theorem CompiledDocument.Agree.sameMeaning {d d' : CompiledDocument}
    (h : d.Agree Comparison.problems d') : d.SameMeaning d' where
  marker := h.marker
  className := h.className
  source := h.source
  root := h.root.1
  codes := by
    rw [← List.forall₂_eq_eq_eq]
    exact List.rel_map (fun _ _ hd => Diagnostic.SameProblem.code_eq hd) h.diagnostics
  diagnostics := h.diagnostics

/-- Files with the same tokens, of which the same touch, either all fail to compile,
    with the same fault, or are compiled to documents with the same meaning. Places in the
    texts have to fit into a word. -/
theorem compile_formatting {files files' : List SourceFile}
    (hfits : ∀ f ∈ files, f.text.utf8ByteSize < UInt32.size)
    (hfits' : ∀ f ∈ files', f.text.utf8ByteSize < UInt32.size)
    (h : List.Forall₂ SourceFile.SameTokens files files') :
    Jointly ParseError.Same (List.Forall₂ CompiledDocument.SameMeaning) (compile files)
      (compile files') := by
  -- nothing is claimed of texts, so every file supplies what is claimed
  have hread : List.Forall₂ (SourceFile.ReadAlike Comparison.problems) files files' := by
    induction h with
    | nil => exact .nil
    | cons hf _ ih =>
      obtain ⟨hfirst, hrest⟩ := List.forall_mem_cons.1 hfits
      obtain ⟨hfirst', hrest'⟩ := List.forall_mem_cons.1 hfits'
      exact .cons (hf.readAlike hfirst hfirst' id) (ih hrest hrest')
  have hagree := compile_jointly hread fun _ _ => Model.supplies_of_text fun _ => trivial
  exact hagree.imp (fun _ _ he => he) fun _ _ hds => hds.imp fun _ _ hd => hd.sameMeaning

/-- A document on one line. -/
def terseFile : SourceFile where
  name := "a.cs"
  text := "[Document] class C \x7b void Inbound(I c) \x7b c.Base(); \x7d \x7d"

/-- The same document on several lines, with comments. -/
def airyFile : SourceFile where
  name := "a.cs"
  text := "// all\n[Document]\nclass /* own */ C \x7b\n  void Inbound(I c)\n  \x7b" ++
    " c.Base(); //\n \x7d\n\x7d\n"

/-- The two are compiled, and to the same document. -/
theorem compile_formatting_comments :
    List.Forall₂ SourceFile.SameTokens [terseFile] [airyFile] ∧
      (compile [terseFile]).toOption.map List.length = some 1 ∧
      Jointly ParseError.Same (List.Forall₂ CompiledDocument.SameMeaning) (compile [terseFile])
        (compile [airyFile]) := by
  have htokens : terseFile.SameTokens airyFile := by decide +kernel
  exact ⟨.cons htokens .nil, by decide +kernel,
    compile_formatting (by decide +kernel) (by decide +kernel) (.cons htokens .nil)⟩

end GatewayPolicy
