import GatewayPolicy.Authoring.Literal
import GatewayPolicy.Model.Helper
import GatewayPolicy.Proofs.Lexical.Stripping

/-! # Code between two tokens

  Code that is copied into a document is a stretch of a text from one token to
  another, freed of its trivia.

  - A `LexedText` is a text that is cut into lexemes without a fault.
  - `LexedText.stripTrivia_between` says what is left of the code from one token
    to another, `LexedText.stripTrivia_braces` of the code between two braces.
  - `LexedText.tokens_before` says that tokens stand one after the other.
-/

namespace GatewayPolicy

/-! ## Slices -/

/-- What is left of the bytes of a text when its first character is passed. -/
theorem exists_bytes_cons (c : Char) (cs : List Char) :
    ∃ n, bytes (c :: cs) = n + 1 ∧ c.utf8Size ≤ n + 1 ∧ n + 1 - c.utf8Size = bytes cs := by
  have hc := c.utf8Size_pos
  refine ⟨bytes (c :: cs) - 1, ?_⟩
  rw [bytes_cons]
  omega

theorem dropBytes_append (cs ds : List Char) : dropBytes (bytes cs) (cs ++ ds) = some ds := by
  induction cs with
  | nil => simp [dropBytes]
  | cons c cs ih =>
    obtain ⟨n, hn, hfits, hrest⟩ := exists_bytes_cons c cs
    rw [hn, List.cons_append, dropBytes, if_pos hfits, hrest, ih]

theorem takeBytes_append (cs ds : List Char) : takeBytes (bytes cs) (cs ++ ds) = some cs := by
  induction cs with
  | nil => simp [takeBytes]
  | cons c cs ih =>
    obtain ⟨n, hn, hfits, hrest⟩ := exists_bytes_cons c cs
    rw [hn, List.cons_append, takeBytes, if_pos hfits, hrest, ih]
    rfl

/-- The text of a span whose ends are counted in characters. -/
theorem SourceFile.slice_eq {f : SourceFile} {pre mid rest : List Char}
    (h : f.text.toList = pre ++ mid ++ rest) {s : Span} (hstart : s.start = bytes pre)
    (hstop : s.stop = bytes (pre ++ mid)) : f.slice s = String.ofList mid := by
  have hlength : s.length = bytes mid := by
    rw [Span.length, hstart, hstop, bytes_append]
    omega
  have hle : s.start ≤ s.stop := by
    rw [hstart, hstop, bytes_append]
    omega
  rw [List.append_assoc] at h
  rw [SourceFile.slice, if_pos hle, h, hstart, dropBytes_append]
  dsimp only
  rw [hlength, takeBytes_append]

/-! ## The lexemes of a text -/

/-- A text as lexemes and the trivia behind them. -/
structure LexedText (text : String) where
  lexemes : List Lexeme
  tail : List Piece
  text_eq : text.toList = joined (piecesOf lexemes ++ tail)
  tiles : Tiles (piecesOf lexemes ++ tail) []
  trivia : ∀ p ∈ tail, p.isTrivia = true

namespace LexedText

variable {text : String} (w : LexedText text)

/-- The place at the end of the text. -/
def stop : Place := Place.start.afterAll (joined (piecesOf w.lexemes ++ w.tail))

/-- The tokens of the text, its end last. -/
def tokens : List Token := placeLexemes Place.start w.lexemes ++ [.eof (w.stop.span [])]

/-- A text that has tokens has lexemes, and its tokens are those of its lexemes. -/
theorem exists_of_scan {ts : List Token} {stop : Place} (h : scan text = .ok (ts, stop)) :
    ∃ w : LexedText text, placeLexemes Place.start w.lexemes = ts ∧ w.stop = stop := by
  obtain ⟨ps, htext, htiles, hplace⟩ := scan_eq_ok_iff.1 h
  obtain ⟨ws, tail, rfl, htail⟩ := exists_lexemes ps
  rw [placeTokens_lexemes _ _ htail] at hplace
  injection hplace with hts hstop
  exact ⟨⟨ws, tail, htext, htiles, htail⟩, hts, hstop⟩

end LexedText

/-- The token at an index is the token of the lexeme there. -/
theorem getElem?_placeLexemes {p : Place} {ws : List Lexeme} {i : Nat} {t : Token}
    (h : (placeLexemes p ws)[i]? = some t) :
    ∃ us w vs, ws = us ++ w :: vs ∧ us.length = i ∧
      t = w.token (p.afterAll (joined (piecesOf us))) := by
  induction ws generalizing p i with
  | nil => simp [placeLexemes] at h
  | cons w ws ih =>
    cases i with
    | zero =>
      rw [placeLexemes, List.getElem?_cons_zero, Option.some.injEq] at h
      exact ⟨[], w, ws, rfl, rfl, h.symm⟩
    | succ i =>
      rw [placeLexemes, List.getElem?_cons_succ] at h
      obtain ⟨us, v, vs, rfl, rfl, rfl⟩ := ih h
      refine ⟨w :: us, v, vs, rfl, rfl, ?_⟩
      simp [Lexeme.pieces]

/-- A lexeme is not the end of the text. -/
theorem Lexeme.kind_ne_eof {w : Lexeme} {rest : List Char} (h : w.piece.Leads rest) :
    w.kind ≠ .eof := by
  obtain ⟨c, cs, -, hmeasure⟩ := h
  intro heof
  rw [w.kind_eq, heof] at hmeasure
  exact measure_fits hmeasure

namespace LexedText

variable {text : String} (x : LexedText text) (hfits : text.utf8ByteSize < UInt32.size)

include hfits

/-- All offsets of the text fit into a word. -/
theorem bytes_lt : bytes (joined (piecesOf x.lexemes ++ x.tail)) < UInt32.size := by
  rwa [← x.text_eq, bytes_toList]

/-- The place of a token, counted from the start of the text. -/
theorem token_place {us vs : List Lexeme} {w : Lexeme} (h : x.lexemes = us ++ w :: vs) :
    (w.token (Place.start.afterAll (joined (piecesOf us)))).span.start =
        bytes (joined (piecesOf us) ++ joined w.gap) ∧
      (w.token (Place.start.afterAll (joined (piecesOf us)))).span.stop =
        bytes (joined (piecesOf (us ++ [w]))) := by
  have hoffset : (Place.start.afterAll (joined (piecesOf us))).offset =
      bytes (joined (piecesOf us)) := by
    rw [Place.afterAll_offset]
    exact Nat.zero_add _
  have hsize := x.bytes_lt hfits
  rw [h] at hsize
  simp only [piecesOf_append, piecesOf_cons, joined_append, joined_cons, bytes_append] at hsize
  have hbound : (Place.start.afterAll (joined (piecesOf us))).offset + bytes (joined w.pieces) <
      UInt32.size := by
    rw [hoffset, w.bytes_pieces]
    omega
  rw [Lexeme.token_start hbound, Lexeme.token_stop hbound, hoffset]
  simp [Lexeme.pieces]

end LexedText

/-! ## Stretches of a text -/

theorem placeLexemes_take (p : Place) (ws : List Lexeme) (k : Nat) :
    (placeLexemes p ws).take k = placeLexemes p (ws.take k) := by
  induction ws generalizing p k with
  | nil => simp [placeLexemes]
  | cons w ws ih =>
    cases k with
    | zero => rfl
    | succ k => simp [placeLexemes, ih]

/-- The first lexeme may keep its trivia or leave it to what is in front. -/
theorem placeLexemes_bare (p : Place) (w : Lexeme) (ws : List Lexeme) :
    placeLexemes (p.afterAll (joined w.gap)) (w.bare :: ws) = placeLexemes p (w :: ws) := by
  simp [placeLexemes, Lexeme.bare, Lexeme.token, Lexeme.pieces]

/-- Stripping the code from a token on joins the tokens, whatever trivia is
    taken along at the end. -/
theorem stripTrivia_slice {f : SourceFile} (hfits : f.text.utf8ByteSize < UInt32.size)
    {xs g zs : List Piece} {w : Lexeme} {ws : List Lexeme}
    (htext : f.text.toList = joined (xs ++ (piecesOf (w :: ws) ++ g) ++ zs))
    (htiles : Tiles (xs ++ (piecesOf (w :: ws) ++ g) ++ zs) [])
    (hg : ∀ q ∈ g, q.isTrivia = true) {s : Span}
    (hstart : s.start = bytes (joined xs ++ joined w.gap))
    (hstop : s.stop = bytes (joined (xs ++ (piecesOf (w :: ws) ++ g)))) :
    stripTrivia (f.slice s) = String.ofList
      (joinTokens none (placeLexemes (Place.start.afterAll (joined xs)) (w :: ws))) := by
  -- the trivia of the first lexeme is not part of the stretch
  have hsplit : xs ++ (piecesOf (w :: ws) ++ g) =
      xs ++ w.gap ++ (piecesOf (w.bare :: ws) ++ g) := by
    simp [Lexeme.bare]
  rw [hsplit] at htext htiles hstop
  rw [← bytes_toList, htext] at hfits
  have hstretch := stripTrivia_stretch htiles hfits hg
  rw [joined_append, joined_append] at htext
  rw [joined_append] at hstop
  rw [← joined_append] at hstart
  rw [SourceFile.slice_eq htext hstart hstop, hstretch, joined_append xs, Place.afterAll_append,
    placeLexemes_bare]

theorem withoutBraces_braces (cs : List Char) :
    withoutBraces (String.ofList ('\x7b' :: (cs ++ ['\x7d']))) = String.ofList cs := by
  simp [withoutBraces]

theorem withoutBraces_slice {f : SourceFile} {pre post : List Char} {c : Char}
    (htext : f.text.toList = pre ++ c :: post) (hc : c ≠ '\x7b') {s : Span}
    (hstart : s.start = bytes pre) : withoutBraces (f.slice s) = f.slice s := by
  -- the slice is empty or starts with `c`
  have hslice : f.slice s = "" ∨ ∃ cs, f.slice s = String.ofList (c :: cs) := by
    unfold SourceFile.slice
    split
    · rw [htext, hstart, dropBytes_append]
      dsimp only
      cases s.length with
      | zero => exact .inl rfl
      | succ n =>
        rw [takeBytes]
        by_cases hfits : c.utf8Size ≤ n + 1
        · rw [if_pos hfits]
          cases takeBytes (n + 1 - c.utf8Size) post with
          | none => exact .inl rfl
          | some cs => exact .inr ⟨cs, rfl⟩
        · rw [if_neg hfits]
          exact .inl rfl
    · exact .inl rfl
  rcases hslice with hslice | ⟨cs, hslice⟩
  · rw [hslice]
    rfl
  · rw [hslice]
    simp [withoutBraces, hc]

/-- Stripping the code between two braces joins the tokens between them. -/
theorem stripTrivia_inside {f : SourceFile} (hfits : f.text.utf8ByteSize < UInt32.size)
    {xs zs : List Piece} {w v : Lexeme} {ws : List Lexeme}
    (htext : f.text.toList = joined (xs ++ piecesOf (w :: (ws ++ [v])) ++ zs))
    (htiles : Tiles (xs ++ piecesOf (w :: (ws ++ [v])) ++ zs) [])
    (hopen : w.piece.chars = ['\x7b']) (hclose : v.piece.chars = ['\x7d']) {s : Span}
    (hstart : s.start = bytes (joined xs ++ joined w.gap))
    (hstop : s.stop = bytes (joined (xs ++ piecesOf (w :: (ws ++ [v]))))) :
    stripTrivia (withoutBraces (f.slice s)) = String.ofList
      (joinTokens none (placeLexemes (Place.start.afterAll (joined (xs ++ w.pieces))) ws)) := by
  have hmid : f.text.toList = joined (xs ++ w.gap) ++
      ('\x7b' :: (joined (piecesOf ws ++ v.gap) ++ ['\x7d'])) ++ joined zs := by
    rw [htext]
    simp [hopen, hclose]
  have hend : s.stop = bytes (joined (xs ++ w.gap) ++
      ('\x7b' :: (joined (piecesOf ws ++ v.gap) ++ ['\x7d']))) := by
    rw [hstop]
    simp [hopen, hclose]
  have hsplit : xs ++ piecesOf (w :: (ws ++ [v])) ++ zs =
      xs ++ w.pieces ++ (piecesOf ws ++ v.gap) ++ v.piece :: zs := by
    simp [Lexeme.pieces]
  rw [hsplit] at htext htiles
  rw [← bytes_toList, htext] at hfits
  rw [← joined_append] at hstart
  rw [SourceFile.slice_eq hmid hstart hend, withoutBraces_braces,
    stripTrivia_stretch htiles hfits v.trivia]

theorem not_isInline_of_forall {v : String} (h : ∀ c ∈ v.toList, c ≠ inlineMarker) :
    isInline v = false := by
  unfold isInline stripMarker
  split
  · rfl
  · rename_i c cs hv
    rw [if_neg (h c (by simp [hv]))]
    rfl

namespace LexedText

variable {f : SourceFile} (x : LexedText f.text)

/-- A token of the text stands at its lexeme. -/
theorem getElem?_tokens {i : Nat} {t : Token} (h : x.tokens[i]? = some t) :
    (∃ us w vs, x.lexemes = us ++ w :: vs ∧ us.length = i ∧
      t = w.token (Place.start.afterAll (joined (piecesOf us)))) ∨
    i = x.lexemes.length ∧ t = .eof (x.stop.span []) := by
  unfold tokens at h
  rcases Nat.lt_or_ge i x.lexemes.length with hi | hi
  · rw [List.getElem?_append_left (by simpa using hi)] at h
    exact .inl (getElem?_placeLexemes h)
  · rw [List.getElem?_append_right (by simpa using hi), length_placeLexemes,
      List.getElem?_singleton] at h
    split at h
    · exact .inr ⟨by omega, by simpa using h.symm⟩
    · cases h

/-- The end of the text is an empty span. -/
theorem slice_eof {s : Span} (hstart : s.start = (Token.eof (x.stop.span [])).span.start)
    (hstop : s.stop = (Token.eof (x.stop.span [])).span.stop) : f.slice s = "" := by
  have hempty : s.start = s.stop := hstart.trans hstop.symm
  rw [SourceFile.slice, if_pos (Nat.le_of_eq hempty), Span.length, hempty, Nat.sub_self]
  cases dropBytes s.stop f.text.toList with
  | none => rfl
  | some rest => cases rest <;> rfl

/-- The tokens from one index on. -/
theorem run_placeLexemes (us : List Lexeme) (w : Lexeme) (vs : List Lexeme) (k : Nat) :
    ((placeLexemes Place.start (us ++ w :: vs)).drop us.length).take (k + 1) =
      placeLexemes (Place.start.afterAll (joined (piecesOf us))) (w :: vs.take k) := by
  rw [placeLexemes_append, List.drop_left' (length_placeLexemes _ _), placeLexemes_take,
    List.take_succ_cons]

/-- Of two lexemes of a text, the first stands in front of the second. -/
theorem split_behind {us vs us' vs' : List Lexeme} {w v : Lexeme}
    (h : us ++ w :: vs = us' ++ v :: vs') (hlt : us.length < us'.length) :
    ∃ ms, us' = us ++ w :: ms ∧ vs = ms ++ v :: vs' := by
  rcases List.append_eq_append_iff.1 h with ⟨ms, rfl, hms⟩ | ⟨ms, rfl, -⟩
  · cases ms with
    | nil => simp at hlt
    | cons m ms =>
      rw [List.cons_append, List.cons.injEq] at hms
      obtain ⟨rfl, rfl⟩ := hms
      exact ⟨ms, rfl, rfl⟩
  · rw [List.length_append] at hlt
    omega

/-- The lexemes up to the second of two, which may be the first again. -/
theorem split_upto {us vs us' vs' : List Lexeme} {w v : Lexeme}
    (h : us ++ w :: vs = us' ++ v :: vs') (hle : us.length ≤ us'.length) :
    ∃ ms, us' ++ [v] = us ++ w :: ms ∧ vs = ms ++ vs' := by
  rcases Nat.eq_or_lt_of_le hle with hlength | hlt
  · obtain ⟨rfl, hrest⟩ := List.append_inj h hlength
    obtain ⟨rfl, rfl⟩ := List.cons.inj hrest
    exact ⟨[], rfl, rfl⟩
  · obtain ⟨ms, rfl, rfl⟩ := split_behind h hlt
    exact ⟨ms ++ [v], by simp, by simp⟩

section Offsets

variable (hfits : f.text.utf8ByteSize < UInt32.size)

include hfits

theorem eof_stop : (Token.eof (x.stop.span [])).span.stop =
    bytes (joined (piecesOf x.lexemes ++ x.tail)) := by
  have hoffset : x.stop.offset = bytes (joined (piecesOf x.lexemes ++ x.tail)) := by
    rw [stop, Place.afterAll_offset]
    exact Nat.zero_add _
  have hsize := x.bytes_lt hfits
  rw [← hoffset] at hsize ⊢
  exact Place.span_stop hsize

/-- Stripping the code from one token to another joins the tokens from the one
    to the other. The end of the text is no token to be joined. -/
theorem stripTrivia_between {i j : Nat} (hij : i ≤ j) {t u : Token} (ht : x.tokens[i]? = some t)
    (hu : x.tokens[j]? = some u) {s : Span} (hstart : s.start = t.span.start)
    (hstop : s.stop = u.span.stop) :
    stripTrivia (f.slice s) = String.ofList
      (joinTokens none (((placeLexemes Place.start x.lexemes).drop i).take (j + 1 - i))) := by
  have htext := x.text_eq
  have htiles := x.tiles
  rcases x.getElem?_tokens ht with ⟨us, w, vs, hws, rfl, rfl⟩ | ⟨rfl, rfl⟩
  · have hcount : j + 1 - us.length = j - us.length + 1 := by omega
    rw [(x.token_place hfits hws).1] at hstart
    rw [hcount, hws, run_placeLexemes]
    rw [hws] at htext htiles
    rcases x.getElem?_tokens hu with ⟨us', v, vs', hws', rfl, rfl⟩ | ⟨rfl, rfl⟩
    · -- both are tokens: the lexemes behind the second are left out
      obtain ⟨ms, hto, rfl⟩ := split_upto (hws.symm.trans hws') hij
      have hlength := congrArg List.length hto
      simp only [List.length_append, List.length_cons, List.length_nil] at hlength
      have htake : (ms ++ vs').take (us'.length - us.length) = ms :=
        List.take_left' (by omega)
      have hsplit : piecesOf (us ++ w :: (ms ++ vs')) ++ x.tail =
          piecesOf us ++ (piecesOf (w :: ms) ++ []) ++ (piecesOf vs' ++ x.tail) := by
        simp
      rw [(x.token_place hfits hws').2, hto] at hstop
      rw [hsplit] at htext htiles
      rw [htake]
      refine stripTrivia_slice hfits htext htiles (List.forall_mem_nil _) hstart ?_
      rw [hstop]
      simp
    · -- the second is the end of the text: all lexemes and the trivia behind them
      have hall : vs.take (x.lexemes.length - us.length) = vs := by
        rw [hws]
        exact List.take_of_length_le (by simp)
      have hsplit : piecesOf (us ++ w :: vs) ++ x.tail =
          piecesOf us ++ (piecesOf (w :: vs) ++ x.tail) ++ [] := by
        simp
      rw [hall]
      rw [hsplit] at htext htiles
      refine stripTrivia_slice hfits htext htiles x.trivia hstart ?_
      rw [hstop, x.eof_stop hfits, hws]
      simp
  · -- nothing stands behind the end of the text
    rcases x.getElem?_tokens hu with ⟨us', v, vs', hws', rfl, rfl⟩ | ⟨rfl, rfl⟩
    · rw [hws', List.length_append, List.length_cons] at hij
      omega
    · rw [x.slice_eof hstart hstop, List.drop_eq_nil_of_le (by simp), List.take_nil]
      rfl

/-- Stripping the code between two braces joins the tokens between them. -/
theorem stripTrivia_braces {i j : Nat} (hij : i < j) {t u : Token} (ht : x.tokens[i]? = some t)
    (hu : x.tokens[j]? = some u) (hopen : t.kind = .symbol .openBrace)
    (hclose : u.kind = .symbol .closeBrace) {s : Span} (hstart : s.start = t.span.start)
    (hstop : s.stop = u.span.stop) :
    stripTrivia (withoutBraces (f.slice s)) = String.ofList
      (joinTokens none (((placeLexemes Place.start x.lexemes).drop (i + 1)).take
        (j - (i + 1)))) := by
  have htext := x.text_eq
  have htiles := x.tiles
  rcases x.getElem?_tokens hu with ⟨us', v, vs', hws', rfl, rfl⟩ | ⟨-, rfl⟩
  · rcases x.getElem?_tokens ht with ⟨us, w, vs, hws, rfl, rfl⟩ | ⟨rfl, -⟩
    · -- the lexemes in front of the second brace are those up to the first, and more
      obtain ⟨ms, rfl, rfl⟩ := split_behind (hws.symm.trans hws') hij
      have hsplit : piecesOf x.lexemes ++ x.tail =
          piecesOf us ++ piecesOf (w :: (ms ++ [v])) ++ (piecesOf vs' ++ x.tail) := by
        simp [hws]
      have hrun : ((placeLexemes Place.start x.lexemes).drop (us.length + 1)).take
          ((us ++ w :: ms).length - (us.length + 1)) =
            placeLexemes (Place.start.afterAll (joined (piecesOf us ++ w.pieces))) ms := by
        have hms : (us ++ w :: ms).length - (us.length + 1) = ms.length := by
          simp
          omega
        have hws'' : x.lexemes = us ++ [w] ++ (ms ++ v :: vs') := by
          simp [hws]
        have hone : piecesOf us ++ w.pieces = piecesOf (us ++ [w]) := by
          simp [Lexeme.pieces]
        rw [hms, hws'', placeLexemes_append, List.drop_left' (by simp), placeLexemes_take,
          List.take_left, hone]
      rw [hsplit] at htext htiles
      rw [(x.token_place hfits hws).1] at hstart
      rw [(x.token_place hfits hws').2] at hstop
      rw [hrun]
      refine stripTrivia_inside hfits htext htiles ?_ ?_ hstart ?_
      · exact x.tiles.symbol_chars (by simp [hws]) (w.kind_eq.trans (congrArg some hopen))
      · exact x.tiles.symbol_chars (by simp [hws]) (v.kind_eq.trans (congrArg some hclose))
      · rw [hstop]
        simp
    · rw [hws', List.length_append] at hij
      omega
  · cases hclose

/-- Code that starts with a closing brace does not stand between braces. -/
theorem withoutBraces_of_close {i : Nat} {t : Token} (ht : x.tokens[i]? = some t)
    (hclose : t.kind = .symbol .closeBrace) {s : Span} (hstart : s.start = t.span.start) :
    withoutBraces (f.slice s) = f.slice s := by
  rcases x.getElem?_tokens ht with ⟨us, w, vs, hws, rfl, rfl⟩ | ⟨-, rfl⟩
  · have hchars : w.piece.chars = ['\x7d'] :=
      x.tiles.symbol_chars (by simp [hws]) (w.kind_eq.trans (congrArg some hclose))
    have htext : f.text.toList = (joined (piecesOf us) ++ joined w.gap) ++
        '\x7d' :: joined (piecesOf vs ++ x.tail) := by
      rw [x.text_eq, hws]
      simp [hchars]
    rw [(x.token_place hfits hws).1] at hstart
    exact withoutBraces_slice htext (by decide) hstart
  · cases hclose

/-- The text of a token's place is the text of the token. -/
theorem slice_token {i : Nat} {t : Token} (h : x.tokens[i]? = some t) :
    f.slice t.span = t.text := by
  have htext := x.text_eq
  rcases x.getElem?_tokens h with ⟨us, w, vs, hws, rfl, rfl⟩ | ⟨rfl, rfl⟩
  · have hmid : f.text.toList = joined (piecesOf us) ++ joined w.gap ++ w.piece.chars ++
        joined (piecesOf vs ++ x.tail) := by
      rw [htext, hws]
      simp
    obtain ⟨hstart, hstop⟩ := x.token_place hfits hws
    refine SourceFile.slice_eq hmid hstart ?_
    rw [hstop]
    simp
  · exact x.slice_eof rfl rfl

end Offsets

/-! ## Tokens -/

/-- None of the tokens in front of the end is the end. -/
theorem not_eof_of_mem_lexemes {t : Token} (h : t ∈ placeLexemes Place.start x.lexemes) :
    t.isEof = false := by
  obtain ⟨i, hi⟩ := List.mem_iff_getElem?.mp h
  obtain ⟨us, w, vs, hws, -, rfl⟩ := getElem?_placeLexemes hi
  obtain ⟨rest, hleads⟩ := x.tiles.leads (p := w.piece) (by simp [hws])
  exact decide_eq_false (Lexeme.kind_ne_eof hleads)

/-- A name starts with a letter, an underscore or an `@`, and goes on as names do. -/
theorem chars_of_isName {i : Nat} {t : Token} (h : x.tokens[i]? = some t)
    (hname : t.isName = true) : ∃ c cs, t.text.toList = c :: cs ∧
      (c = '@' ∨ Text.startsName c = true) ∧ cs.all Text.continuesName = true := by
  have hkind : t.kind = .identifier := by
    simp [Token.isName, Token.isIdentifier] at hname
    exact hname.1
  rcases x.getElem?_tokens h with ⟨us, w, vs, hws, rfl, rfl⟩ | ⟨rfl, rfl⟩
  · obtain ⟨rest, c, cs, hchars, hmeasure⟩ := x.tiles.leads (p := w.piece) (by simp [hws])
    rw [w.kind_eq, show w.kind = .identifier from hkind] at hmeasure
    obtain ⟨hstart, hrest⟩ := measure_fits hmeasure
    refine ⟨c, cs, ?_, hstart, ?_⟩
    · rw [Lexeme.token, String.toList_ofList, hchars]
    · simpa using hrest
  · cases hkind

/-- A name is no inline code. -/
theorem not_isInline_of_isName {i : Nat} {t : Token} (h : x.tokens[i]? = some t)
    (hname : t.isName = true) : isInline t.text = false := by
  obtain ⟨c, cs, hchars, hstart, -⟩ := x.chars_of_isName h hname
  have hmarker : c ≠ inlineMarker := by
    rintro rfl
    rcases hstart with hat | hletter
    · exact absurd hat (by decide)
    · exact absurd hletter (by decide)
  simp [isInline, stripMarker, hchars, hmarker]

/-- The digits of a number are no inline code. -/
theorem not_isInline_digitsOf {i : Nat} {t : Token} (h : x.tokens[i]? = some t)
    (hnumber : t.kind = .integer ∨ t.kind = .real) : isInline (digitsOf t.text) = false := by
  rcases x.getElem?_tokens h with ⟨us, w, vs, hws, rfl, rfl⟩ | ⟨rfl, rfl⟩
  · have hkind : w.kind = .integer ∨ w.kind = .real := hnumber
    obtain ⟨rest, c, cs, hchars, hmeasure⟩ := x.tiles.leads (p := w.piece) (by simp [hws])
    rw [w.kind_eq] at hmeasure
    have hfront : NumberFront (cs.length + 1) (c :: (cs ++ rest)) := by
      have hfits := measure_fits hmeasure
      rcases hkind with hkind | hkind
      · rw [hkind] at hfits
        exact hfits
      · rw [hkind] at hfits
        exact hfits
    refine not_isInline_of_forall fun d hd => ?_
    -- the digits are some of the characters of the token
    have hd : d ∈ w.piece.chars := by
      simp only [digitsOf, Lexeme.token, String.toList_ofList, List.mem_reverse] at hd
      have hkept := (List.dropWhile_sublist _).subset hd
      rw [List.mem_reverse] at hkept
      exact (List.mem_filter.1 hkept).1
    rintro rfl
    rw [hchars] at hd
    have hpart := hfront inlineMarker (by simpa using hd)
    exact absurd hpart (by decide)
  · rcases hnumber with hkind | hkind
    · cases hkind
    · cases hkind

end LexedText

/-! ## Tokens and the end of the text -/

/-- The tokens of a text without its end. -/
theorem LexedText.dropLast_tokens {text : String} (x : LexedText text) :
    x.tokens.dropLast = placeLexemes Place.start x.lexemes := by
  rw [LexedText.tokens, List.dropLast_concat]

theorem LexedText.exists_of_tokenize {text : String} {ts : List Token}
    (h : tokenize text = .ok ts) : ∃ x : LexedText text, x.tokens = ts := by
  obtain ⟨us, stop, hscan, rfl⟩ := scan_of_tokenize h
  obtain ⟨x, rfl, rfl⟩ := LexedText.exists_of_scan hscan
  exact ⟨x, rfl⟩

theorem LexedText.scan_eq {text : String} (x : LexedText text) :
    scan text = .ok (x.tokens.dropLast, x.stop) := by
  rw [x.dropLast_tokens]
  exact scan_eq_ok_iff.2 ⟨_, x.text_eq, x.tiles, placeTokens_lexemes _ _ x.trivia⟩

theorem LexedText.getElem?_of_dropLast {text : String} (x : LexedText text) {i : Nat} {t : Token}
    (h : x.tokens.dropLast[i]? = some t) : x.tokens[i]? = some t := by
  rw [x.dropLast_tokens] at h
  rw [LexedText.tokens, List.getElem?_append_left (List.getElem?_eq_some_iff.1 h).1, h]

theorem LexedText.getElem?_eof {text : String} (x : LexedText text) :
    x.tokens[x.lexemes.length]? = some (.eof (x.stop.span [])) := by
  rw [LexedText.tokens, List.getElem?_append_right (by simp)]
  simp

theorem LexedText.tokenize_eq {text : String} (x : LexedText text) :
    tokenize text = .ok x.tokens := by
  rw [tokenize_of_scan x.scan_eq, x.dropLast_tokens, LexedText.tokens]

/-! ## Tokens in order -/

/-- Whether one token starts where another stops. -/
def Token.touches (t u : Token) : Bool := u.span.start == t.span.stop

/-- One token starts and stops before another. -/
structure Token.Before (t u : Token) : Prop where
  start : t.span.start < u.span.start
  stop : t.span.stop ≤ u.span.stop
  apart : t.span.stop ≤ u.span.start

/-- The tokens of lexemes lie behind the place they start at, one behind the other. -/
theorem placeLexemes_before (p : Place) {ws : List Lexeme} (h : ∀ q ∈ piecesOf ws, q.chars ≠ [])
    (hfits : p.offset + bytes (joined (piecesOf ws)) < UInt32.size) :
    (∀ t ∈ placeLexemes p ws, p.offset ≤ t.span.start ∧ t.span.start < t.span.stop ∧
      t.span.stop ≤ p.offset + bytes (joined (piecesOf ws))) ∧
    (placeLexemes p ws).Pairwise Token.Before := by
  induction ws generalizing p with
  | nil => exact ⟨List.forall_mem_nil _, .nil⟩
  | cons w ws ih =>
    have hsplit := bytes_piecesOf_cons w ws
    have hlexeme : p.offset + bytes (joined w.pieces) < UInt32.size := by omega
    have hnext := Place.afterAll_offset p (joined w.pieces)
    obtain ⟨hbounds, hbefore⟩ := ih (p.afterAll (joined w.pieces)) (fun q hq => h q (by simp [hq]))
      (by rw [hnext]; omega)
    rw [hnext] at hbounds
    -- the first token is not empty, and the others start behind it
    have hpiece := bytes_pos (h w.piece (by simp))
    have hroom := w.bytes_pieces
    have hstart := Lexeme.token_start hlexeme
    have hstop := Lexeme.token_stop hlexeme
    refine ⟨List.forall_mem_cons.2 ⟨?_, fun t ht => ?_⟩,
      List.pairwise_cons.2 ⟨fun t ht => ?_, hbefore⟩⟩
    · omega
    · have := hbounds t ht
      omega
    · have := hbounds t ht
      exact ⟨by omega, by omega, by omega⟩

/-- Tokens stand one after the other, and the end of the text stands last. -/
theorem LexedText.tokens_before {text : String} (x : LexedText text)
    (hfits : text.utf8ByteSize < UInt32.size) : x.tokens.Pairwise Token.Before := by
  have hchars : ∀ q ∈ piecesOf x.lexemes, q.chars ≠ [] :=
    fun q hq => x.tiles.chars_ne_nil q (by simp [hq])
  have hsize := x.bytes_lt hfits
  have hoffset : x.stop.offset = bytes (joined (piecesOf x.lexemes ++ x.tail)) := by
    rw [LexedText.stop, Place.afterAll_offset]
    exact Nat.zero_add _
  rw [joined_append, bytes_append] at hsize hoffset
  have hzero : Place.start.offset = 0 := rfl
  obtain ⟨hbounds, hbefore⟩ := placeLexemes_before Place.start hchars (by omega)
  -- all tokens lie in front of the place where the last one stops
  refine List.pairwise_append.2 ⟨hbefore, List.pairwise_singleton _ _, fun t ht u hu => ?_⟩
  rw [List.mem_singleton.1 hu]
  have ht := hbounds t ht
  have hstart : (Token.eof (x.stop.span [])).span.start = x.stop.offset :=
    Place.span_start (by rw [bytes_nil]; omega)
  have hstop : (Token.eof (x.stop.span [])).span.stop = x.stop.offset :=
    Place.span_stop (by rw [bytes_nil]; omega)
  exact ⟨by omega, by omega, by omega⟩

end GatewayPolicy
