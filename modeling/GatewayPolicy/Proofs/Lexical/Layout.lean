import GatewayPolicy.Authoring.Scan
import GatewayPolicy.Proofs.Lexical.Tiling

/-! # Tokens and the trivia between them

  A token's place is counted over the text in front of it. In a text whose
  offsets fit into a word the spans of its tokens say where they stand.

  - A `Lexeme` is a token with the trivia in front of it, and a text is made of
    lexemes and of trivia at its end.
  - `placeTokens_lexemes` gives the tokens of a text by its lexemes.
  - `Lexeme.token_start` and `Lexeme.token_stop` give their offsets.
-/

namespace GatewayPolicy

/-! ## Bytes -/

/-- How many bytes some characters take. -/
def bytes : List Char → Nat
  | [] => 0
  | c :: cs => c.utf8Size + bytes cs

@[simp] theorem bytes_nil : bytes [] = 0 := rfl

@[simp] theorem bytes_cons (c : Char) (cs : List Char) :
    bytes (c :: cs) = c.utf8Size + bytes cs := rfl

@[simp] theorem bytes_append (cs ds : List Char) : bytes (cs ++ ds) = bytes cs + bytes ds := by
  induction cs with
  | nil => simp
  | cons c cs ih => rw [List.cons_append, bytes_cons, bytes_cons, ih, Nat.add_assoc]

theorem bytes_pos {cs : List Char} (h : cs ≠ []) : 0 < bytes cs := by
  cases cs with
  | nil => exact absurd rfl h
  | cons c cs =>
    have hc := c.utf8Size_pos
    rw [bytes_cons]
    omega

theorem Place.afterAll_offset (p : Place) (cs : List Char) :
    (p.afterAll cs).offset = p.offset + bytes cs := by
  induction cs generalizing p with
  | nil => rfl
  | cons c cs ih =>
    have hstep : (p.after c).offset = p.offset + c.utf8Size := by
      unfold Place.after
      split <;> rfl
    rw [Place.afterAll_cons, ih, hstep, bytes_cons, Nat.add_assoc]

theorem bytes_eq_utf8ByteSize (cs : List Char) : bytes cs = (String.ofList cs).utf8ByteSize := by
  induction cs with
  | nil => rfl
  | cons c cs ih =>
    rw [bytes_cons, ih, ← List.singleton_append, String.ofList_append, String.utf8ByteSize_append,
      ← String.singleton_eq_ofList, String.utf8ByteSize_singleton]

theorem bytes_toList (text : String) : bytes text.toList = text.utf8ByteSize := by
  rw [bytes_eq_utf8ByteSize, String.ofList_toList]

/-- Offsets that fit into a word are kept as they are. -/
theorem Place.span_start {p : Place} {cs : List Char} (h : p.offset + bytes cs < UInt32.size) :
    (p.span cs).start = p.offset :=
  Nat.mod_eq_of_lt (by omega)

theorem Place.span_stop {p : Place} {cs : List Char} (h : p.offset + bytes cs < UInt32.size) :
    (p.span cs).stop = p.offset + bytes cs := by
  rw [Place.span, Place.afterAll_offset]
  exact Nat.mod_eq_of_lt h

/-! ## Lexemes -/

/-- A token with the trivia in front of it. -/
structure Lexeme where
  gap : List Piece
  piece : Piece
  kind : TokenKind
  trivia : ∀ p ∈ gap, p.isTrivia = true
  kind_eq : piece.kind = some kind

namespace Lexeme

/-- The pieces of a lexeme. -/
def pieces (w : Lexeme) : List Piece := w.gap ++ [w.piece]

/-- The lexeme with no trivia in front of it. -/
def bare (w : Lexeme) : Lexeme := { w with gap := [], trivia := List.forall_mem_nil _ }

theorem isTrivia_piece (w : Lexeme) : w.piece.isTrivia = false := by
  rw [Piece.isTrivia, w.kind_eq]
  rfl

/-- The token of a lexeme that starts at a place. -/
def token (w : Lexeme) (p : Place) : Token where
  kind := w.kind
  text := String.ofList w.piece.chars
  span := (p.afterAll (joined w.gap)).span w.piece.chars

theorem bytes_pieces (w : Lexeme) :
    bytes (joined w.pieces) = bytes (joined w.gap) + bytes w.piece.chars := by
  simp [pieces]

/-- A token starts behind the trivia in front of it. -/
theorem token_start {w : Lexeme} {p : Place}
    (h : p.offset + bytes (joined w.pieces) < UInt32.size) :
    (w.token p).span.start = p.offset + bytes (joined w.gap) := by
  rw [bytes_pieces] at h
  rw [token, Place.span_start (by rw [Place.afterAll_offset]; omega), Place.afterAll_offset]

/-- A token stops where its lexeme does. -/
theorem token_stop {w : Lexeme} {p : Place}
    (h : p.offset + bytes (joined w.pieces) < UInt32.size) :
    (w.token p).span.stop = p.offset + bytes (joined w.pieces) := by
  rw [bytes_pieces] at h
  rw [token, Place.span_stop (by rw [Place.afterAll_offset]; omega), Place.afterAll_offset,
    bytes_pieces, Nat.add_assoc]

end Lexeme

/-- The pieces of some lexemes. -/
def piecesOf (ws : List Lexeme) : List Piece := ws.flatMap Lexeme.pieces

@[simp] theorem piecesOf_nil : piecesOf [] = [] := rfl

@[simp] theorem piecesOf_cons (w : Lexeme) (ws : List Lexeme) :
    piecesOf (w :: ws) = w.gap ++ w.piece :: piecesOf ws := by
  simp [piecesOf, Lexeme.pieces]

theorem bytes_piecesOf_cons (w : Lexeme) (ws : List Lexeme) :
    bytes (joined (piecesOf (w :: ws))) =
      bytes (joined w.pieces) + bytes (joined (piecesOf ws)) := by
  simp [Lexeme.pieces, Nat.add_assoc]

@[simp] theorem piecesOf_append (ws vs : List Lexeme) :
    piecesOf (ws ++ vs) = piecesOf ws ++ piecesOf vs := by
  simp [piecesOf]

/-- All pieces are lexemes and trivia behind the last of them. -/
theorem exists_lexemes (ps : List Piece) :
    ∃ ws tail, ps = piecesOf ws ++ tail ∧ ∀ p ∈ tail, p.isTrivia = true := by
  induction ps with
  | nil => exact ⟨[], [], rfl, List.forall_mem_nil _⟩
  | cons p ps ih =>
    obtain ⟨ws, tail, rfl, htail⟩ := ih
    cases hkind : p.kind with
    | some kind =>
      exact ⟨⟨[], p, kind, List.forall_mem_nil _, hkind⟩ :: ws, tail, by simp, htail⟩
    | none =>
      have htrivia : p.isTrivia = true := by rw [Piece.isTrivia, hkind]; rfl
      -- trivia belongs to the token behind it, or to the tail if there is none
      cases ws with
      | nil => exact ⟨[], p :: tail, rfl, List.forall_mem_cons.2 ⟨htrivia, htail⟩⟩
      | cons w ws =>
        refine ⟨⟨p :: w.gap, w.piece, w.kind, ?_, w.kind_eq⟩ :: ws, tail, by simp, htail⟩
        exact List.forall_mem_cons.2 ⟨htrivia, w.trivia⟩

/-- The tokens of lexemes that start at a place. -/
def placeLexemes : Place → List Lexeme → List Token
  | _, [] => []
  | p, w :: ws => w.token p :: placeLexemes (p.afterAll (joined w.pieces)) ws

theorem placeTokens_trivia (p : Place) {ps : List Piece} (h : ∀ q ∈ ps, q.isTrivia = true)
    (qs : List Piece) : placeTokens p (ps ++ qs) = placeTokens (p.afterAll (joined ps)) qs := by
  induction ps generalizing p with
  | nil => rfl
  | cons q ps ih =>
    obtain ⟨hq, hps⟩ := List.forall_mem_cons.1 h
    rw [Piece.isTrivia, Option.isNone_iff_eq_none] at hq
    rw [List.cons_append, placeTokens, ih _ hps, hq, joined_cons, Place.afterAll_append]

theorem placeTokens_lexemes (p : Place) (ws : List Lexeme) {tail : List Piece}
    (h : ∀ q ∈ tail, q.isTrivia = true) :
    placeTokens p (piecesOf ws ++ tail) =
      (placeLexemes p ws, p.afterAll (joined (piecesOf ws ++ tail))) := by
  induction ws generalizing p with
  | nil =>
    have hnone := placeTokens_trivia p h []
    rw [List.append_nil] at hnone
    exact hnone
  | cons w ws ih =>
    rw [piecesOf_cons, List.append_assoc, placeTokens_trivia p w.trivia, List.cons_append,
      placeTokens, ih, w.kind_eq]
    simp [placeLexemes, Lexeme.token, Lexeme.pieces]

theorem placeLexemes_append (p : Place) (ws vs : List Lexeme) :
    placeLexemes p (ws ++ vs) =
      placeLexemes p ws ++ placeLexemes (p.afterAll (joined (piecesOf ws))) vs := by
  induction ws generalizing p with
  | nil => rfl
  | cons w ws ih => simp [placeLexemes, ih, Lexeme.pieces]

@[simp] theorem length_placeLexemes (p : Place) (ws : List Lexeme) :
    (placeLexemes p ws).length = ws.length := by
  induction ws generalizing p with
  | nil => rfl
  | cons w ws ih => simp [placeLexemes, ih]

/-! ## Tokens of a text -/

/-- A text with tokens is cut into pieces that tile, and the tokens are those
    among the pieces. -/
theorem scan_eq_ok_iff {text : String} {tokens : List Token} {stop : Place} :
    scan text = .ok (tokens, stop) ↔
      ∃ ps, text.toList = joined ps ∧ Tiles ps [] ∧
        placeTokens Place.start ps = (tokens, stop) := by
  constructor
  · intro h
    cases hcut : cut text with
    | mk ps broken =>
      cases broken with
      | some fault => simp [scan, hcut] at h
      | none =>
        obtain ⟨htext, htiles⟩ := cut_eq_iff.1 hcut
        refine ⟨ps, htext, htiles, ?_⟩
        simp only [scan, hcut, Except.ok.injEq] at h
        exact h
  · rintro ⟨ps, htext, htiles, hplace⟩
    simp only [scan, cut_eq_iff.2 ⟨htext, htiles⟩, hplace]

theorem tokenize_of_scan {text : String} {tokens : List Token} {stop : Place}
    (h : scan text = .ok (tokens, stop)) :
    tokenize text = .ok (tokens ++ [.eof (stop.span [])]) := by
  rw [tokenize, h]

theorem scan_of_tokenize {text : String} {tokens : List Token} (h : tokenize text = .ok tokens) :
    ∃ ts stop, scan text = .ok (ts, stop) ∧ tokens = ts ++ [.eof (stop.span [])] := by
  unfold tokenize at h
  split at h
  · rename_i ts stop hscan
    exact ⟨ts, stop, hscan, by simpa using h.symm⟩
  · cases h

/-! ## Pieces of a tiling -/

/-- A symbol is spelt as its kind says. -/
theorem Piece.Leads.symbol_chars {p : Piece} {rest : List Char} (h : p.Leads rest) {s : Symbol}
    (hkind : p.kind = some (.symbol s)) : p.chars = s.text.toList := by
  obtain ⟨c, cs, hchars, hmeasure⟩ := h
  rw [hkind] at hmeasure
  obtain ⟨hspelt, hsize⟩ := measure_fits hmeasure
  have hlength : s.text.toList.length = (c :: cs).length := by
    rw [String.length_toList, ← hsize, List.length_cons]
  rw [hchars]
  rw [← List.cons_append] at hspelt
  have hfront := List.prefix_of_prefix_length_le hspelt (List.prefix_append (c :: cs) rest)
    (Nat.le_of_eq hlength)
  exact (hfront.eq_of_length hlength).symm

theorem Tiles.leads {ps : List Piece} {rest : List Char} (h : Tiles ps rest) {p : Piece}
    (hp : p ∈ ps) : ∃ rest', p.Leads rest' := by
  induction ps with
  | nil => cases hp
  | cons q ps ih =>
    rcases List.mem_cons.1 hp with rfl | hp
    · exact ⟨_, h.1⟩
    · exact ih h.2 hp

theorem Tiles.chars_ne_nil {ps : List Piece} {rest : List Char} (h : Tiles ps rest) :
    ∀ p ∈ ps, p.chars ≠ [] := by
  intro p hp
  obtain ⟨rest', c, cs, hchars, -⟩ := h.leads hp
  rw [hchars]
  exact List.cons_ne_nil c cs

theorem Tiles.symbol_chars {ps : List Piece} {rest : List Char} (h : Tiles ps rest) {p : Piece}
    (hp : p ∈ ps) {s : Symbol} (hkind : p.kind = some (.symbol s)) : p.chars = s.text.toList := by
  obtain ⟨rest', hlead⟩ := h.leads hp
  exact hlead.symbol_chars hkind

end GatewayPolicy
