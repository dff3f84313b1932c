import GatewayPolicy.Proofs.Reading.Bodies

/-! # Copied code has the tokens of its body

  The code of a helper is cut out of its file by the place of its body, freed of its trivia
  and wrapped as inline code. It is cut between tokens, so what is cut out tiles by itself:
  it has tokens again, and these are the tokens of the body.

  - `LexedText.exists_run` finds the lexemes of a stretch of tokens in the text.
  - `tokenize_stripped` says that stripping keeps the tokens of pieces that tile.
  - `MethodBody.CutFrom` says where the place of a body begins and ends.
  - `SourceTree.copiedCode_tokens` is the result.
-/

namespace GatewayPolicy

/-! ## Stretches of lexemes -/

/-- The tokens among the pieces of some lexemes. -/
theorem filterMap_face?_piecesOf (p : Place) (ws : List Lexeme) :
    (piecesOf ws).filterMap Piece.face? = (placeLexemes p ws).map Token.face := by
  have hplaced : placeTokens p (piecesOf ws ++ []) = _ :=
    placeTokens_lexemes p ws (List.forall_mem_nil _)
  rw [List.append_nil] at hplaced
  rw [← placeTokens_face p, hplaced]

/-- What a file has from one token to another is joined from lexemes that tile, and fits
    into a word as the file does. -/
theorem LexedText.exists_run {f : SourceFile} (x : LexedText f.text)
    (hfits : f.text.utf8ByteSize < UInt32.size) {i k : Nat} {s : Span}
    (hs : IsStretch (placeLexemes Place.start x.lexemes) i k s) :
    ∃ p w ms, w.gap = [] ∧ ((placeLexemes Place.start x.lexemes).drop i).take (k + 1 - i) =
        placeLexemes p (w :: ms) ∧
      f.slice s = String.ofList (joined (piecesOf (w :: ms))) ∧ Tiles (piecesOf (w :: ms)) [] ∧
      bytes (joined (piecesOf (w :: ms))) < UInt32.size := by
  obtain ⟨hik, t, u, ht, hu, rfl⟩ := hs
  obtain ⟨us, w, vs, hws, rfl, rfl⟩ := getElem?_placeLexemes ht
  obtain ⟨us', v, vs', hws', rfl, rfl⟩ := getElem?_placeLexemes hu
  obtain ⟨ms, hto, rfl⟩ := split_upto (hws.symm.trans hws') hik
  have hlength := congrArg List.length hto
  simp only [List.length_append, List.length_cons, List.length_nil] at hlength
  have hcount : us'.length + 1 - us.length = us'.length - us.length + 1 := by omega
  have htake : (ms ++ vs').take (us'.length - us.length) = ms := List.take_left' (by omega)
  -- the trivia of the first lexeme is left to what is in front
  have hsplit : piecesOf x.lexemes ++ x.tail = piecesOf us ++ w.gap ++ piecesOf (w.bare :: ms) ++
      (piecesOf vs' ++ x.tail) := by
    simp [hws, Lexeme.bare]
  have htext := x.text_eq
  have htiles := x.tiles
  have hsize := x.bytes_lt hfits
  rw [hsplit] at htext htiles hsize
  refine ⟨(Place.start.afterAll (joined (piecesOf us))).afterAll (joined w.gap), w.bare, ms, rfl,
    ?_, ?_, htiles.slice, ?_⟩
  · rw [hcount, hws, run_placeLexemes, htake, placeLexemes_bare]
  · rw [joined_append, joined_append] at htext
    refine SourceFile.slice_eq htext ?_ ?_
    · dsimp only
      rw [(x.token_place hfits hws).1, joined_append]
    · dsimp only
      rw [(x.token_place hfits hws').2, hto]
      simp [Lexeme.bare]
  · rw [joined_append, joined_append, bytes_append, bytes_append] at hsize
    omega

/-- What stands between two braces tiles by itself, with the tokens between the braces. -/
theorem tiles_between_braces {w v : Lexeme} {ms : List Lexeme} (hgap : w.gap = [])
    (h : Tiles (piecesOf (w :: (ms ++ [v]))) []) (hopen : w.kind = .symbol .openBrace)
    (hclose : v.kind = .symbol .closeBrace) (p : Place) :
    withoutBraces (String.ofList (joined (piecesOf (w :: (ms ++ [v]))))) =
        String.ofList (joined (piecesOf ms ++ v.gap)) ∧
      Tiles (piecesOf ms ++ v.gap) [] ∧
      (piecesOf ms ++ v.gap).filterMap Piece.face? = (placeLexemes p ms).map Token.face := by
  have hw : w.piece.chars = ['\x7b'] :=
    h.symbol_chars (by simp) (w.kind_eq.trans (congrArg some hopen))
  have hv : v.piece.chars = ['\x7d'] :=
    h.symbol_chars (by simp) (v.kind_eq.trans (congrArg some hclose))
  have hsplit : piecesOf (w :: (ms ++ [v])) =
      [w.piece] ++ (piecesOf ms ++ v.gap) ++ [v.piece] := by
    simp [hgap]
  have htrivia : v.gap.filterMap Piece.face? = [] :=
    List.filterMap_eq_nil_iff.2 fun q hq => Piece.face?_of_trivia (v.trivia q hq)
  have hchars : joined (piecesOf (w :: (ms ++ [v]))) =
      '\x7b' :: (joined (piecesOf ms ++ v.gap) ++ ['\x7d']) := by
    simp [hgap, hw, hv]
  rw [hsplit] at h
  refine ⟨?_, h.slice, ?_⟩
  · rw [hchars, withoutBraces_braces]
  · rw [List.filterMap_append, filterMap_face?_piecesOf p, htrivia, List.append_nil]

/-! ## Stripped code -/

/-- Pieces that tile are cut without a fault, and what is left of them without trivia has
    the same tokens. -/
theorem tokenize_stripped {text : String} {ps : List Piece} (htext : text.toList = joined ps)
    (h : Tiles ps []) (hfits : bytes (joined ps) < UInt32.size) :
    (cut text).broken = none ∧ ∃ ts stop, tokenize (stripTrivia text) = .ok (ts ++ [.eof stop]) ∧
      ts.map Token.face = ps.filterMap Piece.face? := by
  have hcut : cut text = { pieces := ps } := cut_eq_iff.2 ⟨htext, h⟩
  have htiles := tiles_squeeze false (h.dropWhile Piece.isTrivia)
  have hscan := scan_eq_ok_iff.2 ⟨_, stripTrivia_of_tiles htext h hfits, htiles, rfl⟩
  refine ⟨by rw [hcut], _, _, tokenize_of_scan hscan, ?_⟩
  rw [placeTokens_face, filterMap_face?_squeeze, filterMap_face?_dropWhile]

/-! ## Bodies -/

namespace MethodBody

/-- The text that the code of a body is taken from. -/
def source (file : SourceFile) (body : MethodBody) : String :=
  match body with
  | .expression _ => file.slice body.span
  | .block .. => withoutBraces (file.slice body.span)

/-- Code as the value of a call, in the form for this kind of body. -/
def wrap (body : MethodBody) (code : String) : String :=
  match body with
  | .expression _ => inlineExpression code
  | .block .. => inlineBlock code

/-- The tokens inside a body are `inner`, for a block with a brace on either side. -/
def Encloses (body : MethodBody) (inside inner : List Token) : Prop :=
  match body with
  | .expression _ => inside = inner
  | .block .. => ∃ opening closing, inside = opening :: (inner ++ [closing]) ∧
      opening.isSymbol .openBrace = true ∧ closing.isSymbol .closeBrace = true

/-- The place of a body reaches from one token to another, for a block from a brace to a later
    one. -/
def CutFrom (ts : List Token) (body : MethodBody) : Prop :=
  ∃ i k, JoinedFrom ts i k body.span ∧
    match body with
    | .expression _ => True
    | .block .. => i < k ∧ (∃ t, ts[i]? = some t ∧ t.isSymbol .openBrace = true) ∧
        ∃ u, ts[k]? = some u ∧ u.isSymbol .closeBrace = true

end MethodBody

theorem Expr.BodyBetween.stretch {ts : List Token} {i j : Nat} {e : Expr}
    (h : e.BodyBetween ts i j) : ∃ a b, JoinedFrom ts a b e.span := by
  rcases h with ⟨-, hspan⟩ | ⟨k, hlaid, -⟩
  · exact ⟨_, _, hspan⟩
  · exact ⟨_, _, hlaid.span⟩

/-- The place of every body is cut from the tokens of its file. -/
theorem MethodDecl.ReadBehind.cutFrom {limit : Nat} {ts : List Token} {stop : Span}
    (hts : ts.Pairwise Token.Before) {method : MethodDecl} {body : MethodBody}
    (h : method.ReadBehind (.within limit) (.start ts stop)) (hbody : method.body = some body) :
    body.CutFrom ts := by
  cases body with
  | expression e =>
    obtain ⟨_, _, _, _, _, _, -, hbetween⟩ := h.arrowCut hts hbody
    obtain ⟨a, b, hspan⟩ := hbetween.stretch
    exact ⟨a, b, hspan, trivial⟩
  | block statements span =>
    obtain ⟨first, hfirst, type, name, mods, c, d, n, m, hreach, hread⟩ := h
    have hforward : Grammar.Forward (CodeGrammar.within limit).toGrammar :=
      Grammar.forward_within limit
    have hmem : ⟨statements, span⟩ ∈ Member.blocks (.method method) := by
      simp [Member.blocks, hbody, MethodBody.blocks]
    have hamong := Parse.methodOf_blocks (CodeGrammar.delimits_within limit) hread _ hmem
    obtain ⟨before, opening, chunks, closing, after, rfl, hopen, hclose, hspan, -⟩ :
        Block.Among ⟨statements, span⟩ ts := hamong.of_reaches (hfirst.trans hreach)
    have ht : (before ++ opening :: (chunks.flatten ++ closing :: after))[before.length]? =
        some opening := by
      simp
    have hu := getElem?_second before chunks.flatten after opening closing
    have hstretch := (JoinedFrom.token ht).upto (.token hu) (by omega) (by omega)
    rw [← hspan] at hstretch
    exact ⟨_, _, hstretch, by omega, ⟨opening, ht, hopen⟩, closing, hu, hclose⟩

/-! ## Helpers -/

/-- The code of a helper is copied from its body: `code` is what is left of the body without
    its trivia, and has the tokens `inner` of the body. -/
structure Helper.Copies (h : Helper) (body : MethodBody) (tokens : List Token) (code : String)
    (inner : List Token) : Prop where
  value : h.code? = some (body.wrap code)
  stripped : code = stripTrivia (body.source h.part.file)
  /-- The text of the body can be cut into tokens. -/
  whole : (cut (body.source h.part.file)).broken = none
  /-- The tokens are those of the file inside the place of the body, without its braces. -/
  inside : body.Encloses (tokens.filter (·.Inside body.span)) inner
  /-- They are the tokens of the code, in kind and text. -/
  tokens : ∃ ts stop, tokenize code = .ok (ts ++ [.eof stop]) ∧
    ts.map Token.face = inner.map Token.face

/-- The text of a body tiles by pieces with the tokens of the body. -/
theorem MethodBody.CutFrom.tiles {f : SourceFile} (x : LexedText f.text) {body : MethodBody}
    (hfits : f.text.utf8ByteSize < UInt32.size)
    (hts : InOrder (placeLexemes Place.start x.lexemes))
    (h : body.CutFrom (placeLexemes Place.start x.lexemes)) :
    ∃ ps inner, (body.source f).toList = joined ps ∧ Tiles ps [] ∧
      bytes (joined ps) < UInt32.size ∧
      body.Encloses ((placeLexemes Place.start x.lexemes).filter (·.Inside body.span)) inner ∧
      ps.filterMap Piece.face? = inner.map Token.face := by
  obtain ⟨i, k, hspan, hbraces⟩ := h
  obtain ⟨p, w, ms, hgap, hrun, hslice, htiles, hsize⟩ :=
    x.exists_run hfits (hspan.isStretch hts.before)
  have hinside := (hts.filter_inside hspan).trans hrun
  cases body with
  | expression e =>
    refine ⟨piecesOf (w :: ms), placeLexemes p (w :: ms), ?_, htiles, hsize, hinside,
      filterMap_face?_piecesOf p _⟩
    rw [MethodBody.source, hslice, String.toList_ofList]
  | block statements span =>
    obtain ⟨hik, ⟨t, ht, hopen⟩, u, hu, hclose⟩ := hbraces
    -- the braces are the first token of the stretch and the last
    have hindex : ∀ y, y < k + 1 - i → (placeLexemes p (w :: ms))[y]? =
        (placeLexemes Place.start x.lexemes)[i + y]? := by
      intro y hy
      rw [← hrun, List.getElem?_take, if_pos hy, List.getElem?_drop]
    have hlength : ms.length = k - i := by
      have hlengths := congrArg List.length hrun
      have hlt := (List.getElem?_eq_some_iff.1 hu).1
      simp only [List.length_take, List.length_drop, length_placeLexemes, List.length_cons]
        at hlengths hlt
      omega
    obtain ⟨ns, v, rfl⟩ : ∃ ns v, ms = ns ++ [v] := by
      rcases List.eq_nil_or_concat' ms with rfl | hconcat
      · rw [List.length_nil] at hlength
        omega
      · exact hconcat
    rw [List.length_append, List.length_singleton] at hlength
    have htokens : placeLexemes p (w :: (ns ++ [v])) = w.token p ::
        (placeLexemes (p.afterAll (joined w.pieces)) ns ++
          [v.token ((p.afterAll (joined w.pieces)).afterAll (joined (piecesOf ns)))]) := by
      rw [placeLexemes, placeLexemes_append]
      rfl
    have hfirst := hindex 0 (by omega)
    have hlast := hindex (ns.length + 1) (by omega)
    have hk : i + (ns.length + 1) = k := by omega
    rw [htokens, List.getElem?_cons_zero, Nat.add_zero, ht] at hfirst
    rw [htokens, List.getElem?_cons_succ, List.getElem?_append_right (by simp), hk, hu] at hlast
    simp only [length_placeLexemes, Nat.sub_self, List.getElem?_cons_zero] at hlast
    obtain rfl := Option.some.inj hfirst
    obtain rfl := Option.some.inj hlast
    obtain ⟨hsource, htiles', hfaces⟩ := tiles_between_braces hgap htiles
      (of_decide_eq_true hopen) (of_decide_eq_true hclose) (p.afterAll (joined w.pieces))
    refine ⟨piecesOf ns ++ v.gap, placeLexemes (p.afterAll (joined w.pieces)) ns, ?_, htiles', ?_,
      ⟨_, _, hinside.trans htokens, hopen, hclose⟩, hfaces⟩
    · rw [MethodBody.source, hslice, hsource, String.toList_ofList]
    · simp only [piecesOf_cons, piecesOf_append, joined_append, joined_cons, bytes_append]
        at hsize ⊢
      omega

/-- In a file that parses, the code of every method with a body is copied from the body, with
    the tokens of the file that lie inside it. -/
theorem SourceTree.copiedCode_tokens {file : SourceFile} {tree : SourceTree}
    (hfits : file.text.utf8ByteSize < UInt32.size) (h : SourceTree.parse file = .ok tree) :
    ∃ tokens stop, scan file.text = .ok (tokens, stop) ∧
      ∀ c ∈ tree.classes, ∀ method ∈ c.methods, ∀ body, method.body = some body →
        ∀ part : Part, part.file = file →
          ∃ code inner, Helper.Copies ⟨part, method⟩ body tokens code inner := by
  obtain ⟨tokens, stop, hscan, hread⟩ := SourceTree.methods_read h
  have hts := (InOrder.of_scan hfits hscan).1
  refine ⟨tokens, stop, hscan, ?_⟩
  rintro c hc method hmethod body hbody part rfl
  have hcut := (hread c hc method hmethod).cutFrom hts.before hbody
  obtain ⟨x, rfl, -⟩ := LexedText.exists_of_scan hscan
  obtain ⟨ps, inner, hsource, htiles, hsize, hinside, hfaces⟩ := hcut.tiles x hfits hts
  obtain ⟨hwhole, ts, stop', htokens, hkept⟩ := tokenize_stripped hsource htiles hsize
  refine ⟨stripTrivia (body.source part.file), inner, ?_, rfl, hwhole, hinside,
    ts, stop', htokens, hkept.trans hfaces⟩
  cases body <;> simp [Helper.code?, hbody, MethodBody.wrap, MethodBody.source]

/-- An expression body and a block, with trivia in them and at their edges. -/
def copyFile : SourceFile where
  name := "a.cs"
  text := "class C \x7b int A() => 1e/**/+5 ; void B() \x7b /* c */ d( ); // \x7d\n \x7d \x7d"

/-- The expression keeps a blank where the comment stood, and the block loses its braces, its
    comments and the brace in one of them. -/
theorem SourceTree.copiedCode_tokens_trivia :
    ∃ tree tokens stop, SourceTree.parse copyFile = .ok tree ∧
      scan copyFile.text = .ok (tokens, stop) ∧
      ((tree.classes.flatMap ClassDecl.methods).map fun method =>
        Helper.code? ⟨{ (default : Part) with file := copyFile }, method⟩) =
          [some "\x01@(1e +5)", some "\x01@\x7bd( );\x7d"] ∧
      ∀ c ∈ tree.classes, ∀ method ∈ c.methods, ∀ body, method.body = some body →
        ∀ part : Part, part.file = copyFile →
          ∃ code inner, Helper.Copies ⟨part, method⟩ body tokens code inner := by
  have hcodes : ((SourceTree.parse copyFile).toOption.map fun tree =>
      (tree.classes.flatMap ClassDecl.methods).map fun method =>
        Helper.code? ⟨{ (default : Part) with file := copyFile }, method⟩) =
          some [some "\x01@(1e +5)", some "\x01@\x7bd( );\x7d"] := by
    decide +kernel
  cases htree : SourceTree.parse copyFile with
  | error e =>
    rw [htree] at hcodes
    cases hcodes
  | ok tree =>
    rw [htree] at hcodes
    obtain ⟨tokens, stop, hscan, hcopies⟩ :=
      SourceTree.copiedCode_tokens (by decide +kernel) htree
    exact ⟨tree, tokens, stop, rfl, hscan, Option.some.inj hcodes, hcopies⟩

end GatewayPolicy
