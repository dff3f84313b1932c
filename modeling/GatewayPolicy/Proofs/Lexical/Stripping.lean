import GatewayPolicy.Authoring.Trivia
import GatewayPolicy.Proofs.Lexical.Layout
import Mathlib.Data.List.TakeWhile

/-! # Stripping trivia keeps the code

  Stripping joins the tokens of a text again, with one blank for each run of
  trivia between two of them. The new text has the same tokens: a token looks at
  the tokens that touch it and, behind them, at a blank or the end of the text,
  and neither of these can be taken. Trivia shows in the spans of the tokens, so
  the text has to be one whose offsets fit into a word.

  - `squeeze` is what stripping does, on pieces; `tiles_squeeze` says that the
    squeezed pieces are the pieces of the new text.
  - `joinTokens_lexemes` says that joining tokens by their spans squeezes pieces.
  - `tokenize_stripTrivia`: the tokens stay, and stripping again changes nothing.
  - `stripTrivia_stretch` says that stripping a stretch of lexemes joins its tokens.
-/

namespace GatewayPolicy

/-- The piece that stands for a run of trivia. -/
def blankPiece : Piece := { kind := none, chars := [' '] }

@[simp] theorem blankPiece_chars : blankPiece.chars = [' '] := rfl

/-- The tokens among some pieces, with one blank for each run of trivia in front
    of a token; `gap` says that such a run has already begun. -/
def squeeze : Bool → List Piece → List Piece
  | _, [] => []
  | gap, p :: ps =>
    if p.isTrivia then squeeze true ps
    else (if gap then [blankPiece] else []) ++ p :: squeeze false ps

theorem squeeze_trivia {p : Piece} (h : p.isTrivia = true) (gap : Bool) (ps : List Piece) :
    squeeze gap (p :: ps) = squeeze true ps := by
  simp [squeeze, h]

theorem squeeze_token {p : Piece} (h : p.isTrivia = false) (ps : List Piece) :
    squeeze false (p :: ps) = p :: squeeze false ps := by
  simp [squeeze, h]

theorem squeeze_gap_token {p : Piece} (h : p.isTrivia = false) (ps : List Piece) :
    squeeze true (p :: ps) = blankPiece :: p :: squeeze false ps := by
  simp [squeeze, h]

theorem squeeze_gap {g : List Piece} (h : ∀ p ∈ g, p.isTrivia = true) (gap : Bool)
    (ps : List Piece) : squeeze gap (g ++ ps) = squeeze (gap || !g.isEmpty) ps := by
  induction g generalizing gap with
  | nil => simp
  | cons p g ih =>
    obtain ⟨hp, hg⟩ := List.forall_mem_cons.1 h
    rw [List.cons_append, squeeze_trivia hp, ih hg]
    simp

theorem squeeze_only_trivia {g : List Piece} (h : ∀ p ∈ g, p.isTrivia = true) (gap : Bool) :
    squeeze gap g = [] := by
  have hgap := squeeze_gap h gap []
  rw [List.append_nil] at hgap
  rw [hgap]
  rfl

/-- Squeezing twice is squeezing once. -/
theorem squeeze_squeeze (gap gap' : Bool) (ps : List Piece) :
    squeeze gap (squeeze gap' ps) = squeeze (gap || gap') ps := by
  have hblank : blankPiece.isTrivia = true := rfl
  induction ps generalizing gap gap' with
  | nil => rfl
  | cons p ps ih =>
    cases h : p.isTrivia with
    | true => rw [squeeze_trivia h, squeeze_trivia h, ih, Bool.or_true]
    | false =>
      cases gap' with
      | true =>
        rw [squeeze_gap_token h, squeeze_trivia hblank, squeeze_gap_token h, ih, Bool.or_true,
          squeeze_gap_token h]
        rfl
      | false =>
        rw [squeeze_token h, Bool.or_false]
        cases gap with
        | true => rw [squeeze_gap_token h, squeeze_gap_token h, ih]; rfl
        | false => rw [squeeze_token h, squeeze_token h, ih]; rfl

/-! ## The squeezed pieces tile -/

/-- A blank is a piece of its own, whatever follows. -/
theorem blankPiece_leads (rest : List Char) : blankPiece.Leads rest :=
  ⟨' ', [], rfl, rfl⟩

theorem stops_squeeze (ps : List Piece) : Stops (joined (squeeze true ps)) := by
  induction ps with
  | nil => trivial
  | cons p ps ih =>
    cases h : p.isTrivia with
    | true =>
      rw [squeeze_trivia h]
      exact ih
    | false =>
      rw [squeeze_gap_token h]
      rfl

/-- Behind a token, squeezing keeps the characters up to the first trivia, and
    then stops. -/
theorem joined_squeeze_front (ps : List Piece) : ∃ u t t',
    joined ps = u ++ t ∧ joined (squeeze false ps) = u ++ t' ∧ Stops t' := by
  induction ps with
  | nil => exact ⟨[], [], [], rfl, rfl, trivial⟩
  | cons p ps ih =>
    cases h : p.isTrivia with
    | true =>
      -- from the first trivia on, the squeezed text is at an end or goes on with a blank
      exact ⟨[], _, _, rfl, by rw [squeeze_trivia h]; rfl, stops_squeeze ps⟩
    | false =>
      obtain ⟨u, t, t', hfull, hsqueezed, hstops⟩ := ih
      refine ⟨p.chars ++ u, t, t', ?_, ?_, hstops⟩
      · rw [joined_cons, hfull, List.append_assoc]
      · rw [squeeze_token h, joined_cons, hsqueezed, List.append_assoc]

theorem Piece.kind_ne_none {p : Piece} (h : p.isTrivia = false) : p.kind ≠ none := by
  intro hnone
  rw [Piece.isTrivia, hnone] at h
  cases h

/-- The pieces of a text, squeezed, are the pieces of their own text. -/
theorem tiles_squeeze {ps : List Piece} (gap : Bool) (h : Tiles ps []) :
    Tiles (squeeze gap ps) [] := by
  induction ps generalizing gap with
  | nil => trivial
  | cons p ps ih =>
    obtain ⟨hlead, htiles⟩ := h
    cases htrivia : p.isTrivia with
    | true =>
      rw [squeeze_trivia htrivia]
      exact ih true htiles
    | false =>
      -- the token sees the same characters up to the first trivia behind it
      have htoken : p.Leads (joined (squeeze false ps) ++ []) := by
        obtain ⟨u, t, t', hfull, hsqueezed, hstops⟩ := joined_squeeze_front ps
        rw [List.append_nil, hfull] at hlead
        rw [List.append_nil, hsqueezed]
        exact hlead.front (Piece.kind_ne_none htrivia) hstops
      cases gap with
      | false =>
        rw [squeeze_token htrivia]
        exact ⟨htoken, ih false htiles⟩
      | true =>
        rw [squeeze_gap_token htrivia]
        exact ⟨blankPiece_leads _, htoken, ih false htiles⟩

/-! ## Tokens, their places aside -/

/-- What a token is and how it is written. -/
def Token.face (t : Token) : TokenKind × String := (t.kind, t.text)

/-- What a piece is and how it is written, if it is a token. -/
def Piece.face? (p : Piece) : Option (TokenKind × String) :=
  p.kind.map fun kind => (kind, String.ofList p.chars)

theorem placeTokens_face (place : Place) (ps : List Piece) :
    (placeTokens place ps).1.map Token.face = ps.filterMap Piece.face? := by
  induction ps generalizing place with
  | nil => rfl
  | cons p ps ih =>
    have hrest := ih (place.afterAll p.chars)
    cases hkind : p.kind with
    | none =>
      have hface : p.face? = none := by rw [Piece.face?, hkind]; rfl
      simp only [placeTokens, hkind, List.filterMap_cons, hface]
      exact hrest
    | some kind =>
      have hface : p.face? = some (kind, String.ofList p.chars) := by rw [Piece.face?, hkind]; rfl
      simp only [placeTokens, hkind, List.filterMap_cons, hface, List.map_cons, hrest]
      rfl

theorem Piece.face?_of_trivia {p : Piece} (h : p.isTrivia = true) : p.face? = none := by
  rw [Piece.isTrivia, Option.isNone_iff_eq_none] at h
  rw [Piece.face?, h]
  rfl

/-- Squeezing keeps the tokens. -/
theorem filterMap_face?_squeeze (gap : Bool) (ps : List Piece) :
    (squeeze gap ps).filterMap Piece.face? = ps.filterMap Piece.face? := by
  induction ps generalizing gap with
  | nil => rfl
  | cons p ps ih =>
    cases h : p.isTrivia with
    | true => rw [squeeze_trivia h, ih, List.filterMap_cons, Piece.face?_of_trivia h]
    | false =>
      have hblank : blankPiece.face? = none := rfl
      cases gap with
      | false => rw [squeeze_token h, List.filterMap_cons, List.filterMap_cons, ih]
      | true =>
        rw [squeeze_gap_token h, List.filterMap_cons, hblank]
        simp only [List.filterMap_cons, ih]

theorem filterMap_face?_dropWhile (ps : List Piece) :
    (ps.dropWhile Piece.isTrivia).filterMap Piece.face? = ps.filterMap Piece.face? := by
  induction ps with
  | nil => rfl
  | cons p ps ih =>
    cases h : p.isTrivia with
    | true => rw [List.dropWhile_cons_of_pos h, ih, List.filterMap_cons, Piece.face?_of_trivia h]
    | false => rw [List.dropWhile_cons_of_neg (by simp [h])]

/-! ## Joining tokens -/

/-- Trivia takes room. -/
theorem Lexeme.bytes_gap_pos {w : Lexeme} (h : ∀ p ∈ w.gap, p.chars ≠ []) :
    0 < bytes (joined w.gap) ↔ w.gap.isEmpty = false := by
  cases hg : w.gap with
  | nil => simp
  | cons q qs =>
    have hq := bytes_pos (h q (by rw [hg]; exact List.mem_cons_self))
    rw [joined_cons, bytes_append]
    exact ⟨fun _ => rfl, fun _ => by omega⟩

/-- Joining the tokens behind a place squeezes the pieces behind it. -/
theorem joinTokens_lexemes (p : Place) {ws : List Lexeme} {tail : List Piece}
    (htail : ∀ q ∈ tail, q.isTrivia = true) (hchars : ∀ q ∈ piecesOf ws, q.chars ≠ [])
    (hfits : p.offset + bytes (joined (piecesOf ws)) < UInt32.size) :
    joinTokens (some p.offset) (placeLexemes p ws) =
      joined (squeeze false (piecesOf ws ++ tail)) := by
  induction ws generalizing p with
  | nil =>
    rw [piecesOf_nil, List.nil_append, squeeze_only_trivia htail]
    rfl
  | cons w ws ih =>
    have hsplit := bytes_piecesOf_cons w ws
    have hshape : piecesOf (w :: ws) ++ tail = w.gap ++ w.piece :: (piecesOf ws ++ tail) := by
      simp
    have hlexeme : p.offset + bytes (joined w.pieces) < UInt32.size := by omega
    have hnext := Place.afterAll_offset p (joined w.pieces)
    have hrest := ih (p.afterAll (joined w.pieces)) (fun q hq => hchars q (by simp [hq]))
      (by rw [hnext]; omega)
    have hgap := w.bytes_gap_pos fun q hq => hchars q (by simp [hq])
    rw [placeLexemes, joinTokens, Lexeme.token_start hlexeme, Lexeme.token_stop hlexeme, ← hnext,
      hrest, hshape, squeeze_gap w.trivia, Bool.false_or]
    -- a blank is written just when there is a gap
    cases hg : w.gap.isEmpty with
    | true =>
      have hnone : ¬p.offset < p.offset + bytes (joined w.gap) := by
        rw [hg] at hgap
        simp at hgap
        omega
      simp [squeeze_token w.isTrivia_piece, hnone, Lexeme.token]
    | false =>
      have hsome : p.offset < p.offset + bytes (joined w.gap) := by
        have := hgap.2 hg
        omega
      simp [squeeze_gap_token w.isTrivia_piece, hsome, Lexeme.token]

/-- Joining tokens squeezes their pieces, and leaves out the trivia in front of the first. -/
theorem joinTokens_none_lexemes (p : Place) {ws : List Lexeme} {tail : List Piece}
    (htail : ∀ q ∈ tail, q.isTrivia = true) (hchars : ∀ q ∈ piecesOf ws, q.chars ≠ [])
    (hfits : p.offset + bytes (joined (piecesOf ws)) < UInt32.size) :
    joinTokens none (placeLexemes p ws) =
      joined (squeeze false ((piecesOf ws ++ tail).dropWhile Piece.isTrivia)) := by
  cases ws with
  | nil =>
    rw [piecesOf_nil, List.nil_append, List.dropWhile_eq_nil_iff.2 htail]
    rfl
  | cons w ws =>
    have hsplit := bytes_piecesOf_cons w ws
    have hshape : piecesOf (w :: ws) ++ tail = w.gap ++ w.piece :: (piecesOf ws ++ tail) := by
      simp
    have hlexeme : p.offset + bytes (joined w.pieces) < UInt32.size := by omega
    have hnext := Place.afterAll_offset p (joined w.pieces)
    have hbehind : ∀ q ∈ piecesOf ws, q.chars ≠ [] := fun q hq => hchars q (by simp [hq])
    have hrest := joinTokens_lexemes (p.afterAll (joined w.pieces)) htail hbehind
      (by rw [hnext]; omega)
    rw [placeLexemes, joinTokens, Lexeme.token_stop hlexeme, ← hnext, hrest, hshape,
      List.dropWhile_append_of_pos w.trivia,
      List.dropWhile_cons_of_neg (by simp [w.isTrivia_piece]), squeeze_token w.isTrivia_piece]
    simp [Lexeme.token]

/-! ## Stripping -/

theorem Tiles.dropWhile {ps : List Piece} (q : Piece → Bool) (h : Tiles ps []) :
    Tiles (ps.dropWhile q) [] := by
  rw [← List.takeWhile_append_dropWhile (p := q) (l := ps)] at h
  exact (tiles_append.1 h).2

theorem stripTrivia_of_tiles {text : String} {ps : List Piece} (htext : text.toList = joined ps)
    (h : Tiles ps []) (hfits : bytes (joined ps) < UInt32.size) :
    (stripTrivia text).toList = joined (squeeze false (ps.dropWhile Piece.isTrivia)) := by
  obtain ⟨ws, tail, rfl, htail⟩ := exists_lexemes ps
  have hscan := scan_eq_ok_iff.2 ⟨_, htext, h, placeTokens_lexemes Place.start ws htail⟩
  have hchars : ∀ q ∈ piecesOf ws, q.chars ≠ [] := fun q hq => h.chars_ne_nil q (by simp [hq])
  rw [joined_append, bytes_append] at hfits
  have hstart : Place.start.offset + bytes (joined (piecesOf ws)) < UInt32.size := by
    rw [show Place.start.offset = 0 from rfl]
    omega
  rw [stripTrivia, hscan]
  dsimp only
  rw [String.toList_ofList, joinTokens_none_lexemes Place.start htail hchars hstart]

/-- Squeezed pieces that start with a token start with the same token. -/
theorem dropWhile_squeeze_dropWhile (ps : List Piece) :
    (squeeze false (ps.dropWhile Piece.isTrivia)).dropWhile Piece.isTrivia =
      squeeze false (ps.dropWhile Piece.isTrivia) := by
  cases hps : ps.dropWhile Piece.isTrivia with
  | nil => rfl
  | cons p qs =>
    have hp : p.isTrivia = false := by
      have := List.head?_dropWhile_not Piece.isTrivia ps
      rw [hps] at this
      simpa using this
    rw [squeeze_token hp, List.dropWhile_cons_of_neg (by simp [hp])]

/-- A squeezed text is not longer: a blank stands for a run of trivia. -/
theorem bytes_squeeze_le {ps : List Piece} (h : ∀ p ∈ ps, p.chars ≠ []) (gap : Bool) :
    bytes (joined (squeeze gap ps)) ≤ bytes (joined ps) + gap.toNat := by
  induction ps generalizing gap with
  | nil => exact Nat.zero_le _
  | cons p ps ih =>
    obtain ⟨hp, hps⟩ := List.forall_mem_cons.1 h
    have hpos := bytes_pos hp
    rw [joined_cons, bytes_append]
    cases htrivia : p.isTrivia with
    | true =>
      have hrest := ih hps true
      rw [squeeze_trivia htrivia]
      simp only [Bool.toNat_true] at hrest
      omega
    | false =>
      have hrest := ih hps false
      simp only [Bool.toNat_false] at hrest
      cases gap with
      | false =>
        rw [squeeze_token htrivia, joined_cons, bytes_append]
        simp only [Bool.toNat_false]
        omega
      | true =>
        have hblank : bytes blankPiece.chars = 1 := rfl
        rw [squeeze_gap_token htrivia, joined_cons, joined_cons, bytes_append, bytes_append, hblank]
        simp only [Bool.toNat_true]
        omega

/-- Stripping trivia keeps the tokens, in kind and text, and stripping what is
    stripped changes nothing. -/
theorem tokenize_stripTrivia {text : String} (hfits : text.utf8ByteSize < UInt32.size)
    {tokens : List Token} (h : tokenize text = .ok tokens) :
    (∃ tokens', tokenize (stripTrivia text) = .ok tokens' ∧
      tokens'.map Token.face = tokens.map Token.face) ∧
    stripTrivia (stripTrivia text) = stripTrivia text := by
  obtain ⟨ts, stop, hscan, rfl⟩ := scan_of_tokenize h
  obtain ⟨ps, htext, htiles, hplace⟩ := scan_eq_ok_iff.1 hscan
  rw [← bytes_toList, htext] at hfits
  -- the pieces of the stripped text
  have hstrip := stripTrivia_of_tiles htext htiles hfits
  have hbehind := htiles.dropWhile Piece.isTrivia
  have htiles' := tiles_squeeze false hbehind
  constructor
  · have hscan' := scan_eq_ok_iff.2 ⟨_, hstrip, htiles', rfl⟩
    refine ⟨_, tokenize_of_scan hscan', ?_⟩
    have hfaces : ts.map Token.face = ps.filterMap Piece.face? := by
      rw [← placeTokens_face Place.start ps, hplace]
    rw [List.map_append, List.map_append, placeTokens_face, filterMap_face?_squeeze,
      filterMap_face?_dropWhile, hfaces]
    rfl
  · -- the squeezed pieces start with a token and are squeezed already
    have hshorter : bytes (joined (squeeze false (ps.dropWhile Piece.isTrivia))) < UInt32.size := by
      have hsqueezed := bytes_squeeze_le hbehind.chars_ne_nil false
      have hsplit := congrArg (bytes ∘ joined)
        (List.takeWhile_append_dropWhile (p := Piece.isTrivia) (l := ps))
      simp only [Function.comp_apply, joined_append, bytes_append] at hsplit
      simp only [Bool.toNat_false] at hsqueezed
      omega
    have htwice := stripTrivia_of_tiles hstrip htiles' hshorter
    rw [dropWhile_squeeze_dropWhile, squeeze_squeeze] at htwice
    exact String.toList_inj.1 (htwice.trans hstrip.symm)

/-- A comment between two tokens that would be one number if they touched. -/
theorem tokenize_stripTrivia_comment :
    ∃ tokens, tokenize "1e/* x */+5 // y" = .ok tokens ∧ stripTrivia "1e/* x */+5 // y" = "1e +5" ∧
      (∃ tokens', tokenize (stripTrivia "1e/* x */+5 // y") = .ok tokens' ∧
        tokens'.map Token.face = tokens.map Token.face) ∧
      stripTrivia (stripTrivia "1e/* x */+5 // y") = stripTrivia "1e/* x */+5 // y" :=
  ⟨_, rfl, by decide +kernel, tokenize_stripTrivia (by decide +kernel) rfl⟩

/-- Stripping a stretch of lexemes joins their tokens, whatever trivia stands
    around them. -/
theorem stripTrivia_stretch {xs zs tail : List Piece} {ws : List Lexeme}
    (h : Tiles (xs ++ (piecesOf ws ++ tail) ++ zs) [])
    (hfits : bytes (joined (xs ++ (piecesOf ws ++ tail) ++ zs)) < UInt32.size)
    (htail : ∀ q ∈ tail, q.isTrivia = true) :
    stripTrivia (String.ofList (joined (piecesOf ws ++ tail))) =
      String.ofList (joinTokens none (placeLexemes (Place.start.afterAll (joined xs)) ws)) := by
  have htiles := h.slice
  have hchars : ∀ q ∈ piecesOf ws, q.chars ≠ [] :=
    fun q hq => htiles.chars_ne_nil q (by simp [hq])
  have hplace : (Place.start.afterAll (joined xs)).offset = bytes (joined xs) := by
    rw [Place.afterAll_offset]
    exact Nat.zero_add _
  simp only [joined_append, bytes_append] at hfits
  have hstrip := stripTrivia_of_tiles String.toList_ofList htiles (by
    rw [joined_append, bytes_append]
    omega)
  rw [← String.toList_inj, hstrip, String.toList_ofList,
    joinTokens_none_lexemes _ htail hchars (by rw [hplace]; omega)]

end GatewayPolicy
