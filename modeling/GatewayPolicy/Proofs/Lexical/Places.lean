import GatewayPolicy.Proofs.Lexical.Stretch
import Mathlib.Data.List.DropRight
import Mathlib.Data.List.Infix

/-! # Where tokens stand

  Offsets, lines and columns are counted while a text is scanned, character by
  character, through comments and literals of any length. What they come to can be
  said of the finished text: tokens and the trivia between them tile it, and each
  token's place is what one counts in the text in front of it.

  - `Gap` says what may stand between two tokens.
  - `Span.Marks` says what a span counts.
  - `Laid` says how a text is laid out by its tokens; all else follows from it.
  - `tokenize_tiles` is the result.
-/

namespace GatewayPolicy

open Text

/-! ## Counting -/

/-- The characters behind the last line feed. -/
def lastLine (cs : List Char) : List Char := cs.rtakeWhile (· ≠ '\n')

/-- The span of the characters `inside`, which follow `before` at the start of a text. -/
structure Span.Marks (s : Span) (before inside : List Char) : Prop where
  start : s.start = bytes before % UInt32.size
  stop : s.stop = (bytes before + bytes inside) % UInt32.size
  line : s.line = 1 + before.count '\n'
  column : s.column = 1 + (lastLine before).length

/-- Offsets that fit into a word are counted in full. -/
theorem Span.Marks.offsets {s : Span} {before inside : List Char} (h : s.Marks before inside)
    (hfits : bytes before + bytes inside < UInt32.size) :
    s.start = bytes before ∧ s.stop = bytes before + bytes inside := by
  rw [h.start, h.stop]
  exact ⟨Nat.mod_eq_of_lt (by omega), Nat.mod_eq_of_lt hfits⟩

/-- One character more moves the line or the column. -/
theorem Place.after_start (cs : List Char) (c : Char) :
    Place.start.afterAll (cs ++ [c]) = (Place.start.afterAll cs).after c := by
  rw [Place.afterAll_append]
  rfl

theorem Place.afterAll_line (cs : List Char) :
    (Place.start.afterAll cs).line = 1 + cs.count '\n' := by
  induction cs using List.reverseRecOn with
  | nil => rfl
  | append_singleton cs c ih =>
    rw [Place.after_start, List.count_append]
    by_cases hc : c = '\n'
    · simp [Place.after, hc, ih, Nat.add_assoc]
    · simp [Place.after, hc, ih]

theorem Place.afterAll_column (cs : List Char) :
    (Place.start.afterAll cs).column = 1 + (lastLine cs).length := by
  induction cs using List.reverseRecOn with
  | nil => rfl
  | append_singleton cs c ih =>
    rw [Place.after_start, lastLine]
    by_cases hc : c = '\n'
    · rw [List.rtakeWhile_concat_neg _ _ _ (by simp [hc])]
      simp [Place.after, hc]
    · rw [List.rtakeWhile_concat_pos _ _ _ (by simp [hc])]
      simp only [Place.after, hc, if_false, ih, List.length_append, List.length_singleton]
      rw [lastLine, Nat.add_assoc]

/-- A span that is counted from the start of the text marks its characters. -/
theorem Place.span_marks (before inside : List Char) :
    ((Place.start.afterAll before).span inside).Marks before inside where
  start := by
    simp only [Place.span, Place.afterAll_offset, Place.start, Nat.zero_add]
  stop := by
    simp only [Place.span, Place.afterAll_offset, Place.start, Nat.zero_add]
  line := Place.afterAll_line before
  column := Place.afterAll_column before

/-- The bytes between two offsets are those of the characters between them. -/
theorem extract_toByteArray (before inside behind : List Char) :
    (String.ofList (before ++ inside ++ behind)).toByteArray.extract (bytes before)
      (bytes before + bytes inside) = (String.ofList inside).toByteArray := by
  have hsize : ∀ cs : List Char, (String.ofList cs).toByteArray.size = bytes cs := by
    intro cs
    rw [String.size_toByteArray, bytes_eq_utf8ByteSize]
  rw [String.ofList_append, String.ofList_append, String.toByteArray_append,
    String.toByteArray_append, ByteArray.append_assoc, ByteArray.extract_append, hsize,
    Nat.sub_self, Nat.add_sub_cancel_left, ByteArray.extract_append_eq_left (hsize inside).symm]
  have hnone : (String.ofList before).toByteArray.extract (bytes before)
      (bytes before + bytes inside) = ByteArray.empty := by
    rw [ByteArray.extract_eq_empty_iff]
    rw [hsize]
    omega
  rw [hnone, ByteArray.empty_append]

/-! ## Trivia -/

/-- What stands between two tokens, in front of `rest`: blanks and byte order marks,
    lines that are skipped up to their end, and comments up to the first place where they
    can end. -/
inductive Gap (rest : List Char) : List Char → Prop where
  | nil : Gap rest []
  | blank {c : Char} {cs : List Char} (hc : isBlank c = true ∨ c = '\uFEFF')
      (behind : Gap rest cs) : Gap rest (c :: cs)
  | line {run cs : List Char} (opens : ['/', '/'] <+: run ∨ ['#'] <+: run)
      (inside : '\n' ∉ run) (ends : ∀ c ∈ (cs ++ rest).head?, c = '\n')
      (behind : Gap rest cs) : Gap rest (run ++ cs)
  | comment {body cs : List Char} (inside : ¬['*', '/'] <:+: body ++ ['*'])
      (behind : Gap rest cs) : Gap rest ('/' :: '*' :: (body ++ '*' :: '/' :: cs))

/-- A comment that ends well ends at the first place where it can. -/
theorem commentExtent_ends {cs : List Char} (h : (commentExtent cs).fault = none) :
    ∃ body rest, cs = body ++ '*' :: '/' :: rest ∧ (commentExtent cs).size = body.length + 2 ∧
      ¬['*', '/'] <:+: body ++ ['*'] := by
  induction cs with
  | nil => simp [commentExtent] at h
  | cons c cs ih =>
    unfold commentExtent at h ⊢
    by_cases hend : c = '*' ∧ cs.head? = some '/'
    · obtain ⟨rfl, hslash⟩ := hend
      obtain ⟨rest, rfl⟩ := List.head?_eq_some_iff.1 hslash
      refine ⟨[], rest, rfl, by simp, ?_⟩
      intro hearly
      exact absurd hearly.length_le (by simp)
    · have hgo : (decide (c = '*') && decide (cs.head? = some '/')) = false := by
        simpa using hend
      rw [hgo] at h ⊢
      obtain ⟨body, rest, hcs, hsize, hbody⟩ := ih h
      refine ⟨c :: body, rest, by rw [hcs]; rfl, ?_, ?_⟩
      · simp only [Bool.false_eq_true, if_false, Extent.after_size, hsize, List.length_cons]
        omega
      · -- the comment does not end at its first character either
        rw [List.cons_append, List.infix_cons_iff]
        intro hearly
        rcases hearly with hfront | hlater
        · apply hend
          rw [List.cons_prefix_cons] at hfront
          refine ⟨hfront.1.symm, ?_⟩
          rw [hcs]
          cases body with
          | nil => simp at hfront
          | cons d body =>
            rw [List.cons_append, List.cons_prefix_cons] at hfront
            simp [← hfront.2.1]
        · exact hbody hlater

/-- A piece that ends well and is no trivia is a token. -/
theorem measureToken_kind {c : Char} {cs : List Char} (h : (measureToken c cs).1 = none) :
    (measureToken c cs).2.fault ≠ none := by
  revert h
  rw [measureToken_eq]
  repeat
    split
    · simp
  cases hs : firstSymbol? (c :: cs) with
  | none => simp
  | some s => simp

theorem Piece.Leads.trivia_extent {p : Piece} {rest : List Char} (h : p.Leads rest)
    (htrivia : p.isTrivia = true) : ∃ c cs, p.chars = c :: cs ∧
      measureTrivia? c (cs ++ rest) = some { size := cs.length + 1 } := by
  obtain ⟨c, cs, hchars, hmeasure⟩ := h
  rw [Piece.isTrivia, Option.isNone_iff_eq_none] at htrivia
  rw [htrivia] at hmeasure
  refine ⟨c, cs, hchars, ?_⟩
  cases hcase : measureTrivia? c (cs ++ rest) with
  | some e =>
    rw [measure_of_trivia hcase] at hmeasure
    exact congrArg some (congrArg Prod.snd hmeasure)
  | none =>
    rw [measure_of_token hcase] at hmeasure
    exact absurd (by rw [hmeasure]) (measureToken_kind (by rw [hmeasure]))

/-- A run that takes exactly the characters `p` stops in front of what follows. -/
theorem countWhile_eq_length {q : Char → Bool} {p t : List Char}
    (h : countWhile q (p ++ t) = p.length) :
    (∀ c ∈ p, q c = true) ∧ ∀ c ∈ t.head?, q c = false := by
  induction p with
  | nil =>
    refine ⟨List.forall_mem_nil _, ?_⟩
    intro c hc
    obtain ⟨cs, rfl⟩ := List.head?_eq_some_iff.1 hc
    by_contra hq
    rw [List.nil_append, countWhile_cons_pos cs (by simpa using hq)] at h
    simp at h
  | cons d p ih =>
    by_cases hd : q d = true
    · rw [List.cons_append, countWhile_cons_pos _ hd, List.length_cons] at h
      obtain ⟨hrun, hstop⟩ := ih (by omega)
      exact ⟨List.forall_mem_cons.2 ⟨hd, hrun⟩, hstop⟩
    · rw [List.cons_append, countWhile_cons_neg _ (by simpa using hd)] at h
      simp at h

/-- A line that is skipped takes both strokes that open it. -/
theorem line_opens {c : Char} {ds rest : List Char}
    (hline : c = '#' ∨ c = '/' ∧ (ds ++ rest).head?.any (· = '/'))
    (hstop : ∀ d ∈ rest.head?, d = '\n') : ['/', '/'] <+: c :: ds ∨ ['#'] <+: c :: ds := by
  rcases hline with rfl | ⟨rfl, hslash⟩
  · right
    simp
  · left
    cases ds with
    | cons d ds => simpa [eq_comm] using hslash
    | nil =>
      exfalso
      cases hfront : rest.head? with
      | none => simp [hfront] at hslash
      | some d =>
        have hd : d = '\n' := hstop d (by simp [hfront])
        simp [hfront, hd] at hslash

/-- The characters of a comment, by where it ends. -/
theorem comment_chars {ds rest : List Char} (hstar : (ds ++ rest).head?.any (· = '*'))
    (h : (commentExtent ((ds ++ rest).drop 1)).after 2 = { size := ds.length + 1 }) :
    ∃ body, ds = '*' :: (body ++ ['*', '/']) ∧ ¬['*', '/'] <:+: body ++ ['*'] := by
  have hfault : (commentExtent ((ds ++ rest).drop 1)).fault = none := congrArg Extent.fault h
  have hsize : 2 + (commentExtent ((ds ++ rest).drop 1)).size = ds.length + 1 :=
    congrArg Extent.size h
  obtain ⟨body, behind, hbody, hlength, hinside⟩ := commentExtent_ends hfault
  rw [hlength] at hsize
  cases ds with
  | nil =>
    rw [List.length_nil] at hsize
    omega
  | cons d ds =>
    have hd : d = '*' := by simpa using hstar
    rw [List.length_cons] at hsize
    rw [List.cons_append, List.drop_succ_cons, List.drop_zero] at hbody
    -- both sides have as many characters in front of what follows
    have happend : ds ++ rest = (body ++ ['*', '/']) ++ behind := by
      rw [hbody]
      simp
    have hsame : ds.length = (body ++ ['*', '/']).length := by
      rw [List.length_append]
      show ds.length = body.length + 2
      omega
    have hds := (List.append_inj happend hsame).1
    exact ⟨body, by rw [hd, hds], hinside⟩

/-- A piece of trivia and the gap behind it are a gap. -/
theorem Piece.Leads.gap {p : Piece} {cs rest : List Char} (h : p.Leads (cs ++ rest))
    (htrivia : p.isTrivia = true) (hgap : Gap rest cs) : Gap rest (p.chars ++ cs) := by
  obtain ⟨c, ds, hchars, hextent⟩ := h.trivia_extent htrivia
  rw [hchars]
  rw [measureTrivia?_eq] at hextent
  split at hextent
  · -- a blank or a byte order mark is a piece by itself
    rename_i hblank
    have hds : ds = [] := by simpa using hextent.symm
    rw [hds]
    exact .blank hblank hgap
  split at hextent
  · -- a skipped line is a run of characters that are no line feed
    rename_i hline
    have hsize : countWhile (· ≠ '\n') ((c :: ds) ++ (cs ++ rest)) = (c :: ds).length := by
      simpa using hextent
    obtain ⟨hrun, hstop⟩ := countWhile_eq_length hsize
    have hends : ∀ d ∈ (cs ++ rest).head?, d = '\n' := by
      intro d hd
      simpa using hstop d hd
    refine .line (line_opens hline hends) ?_ hends hgap
    intro hmem
    simpa using hrun '\n' hmem
  split at hextent
  · -- a comment is measured behind the two characters that open it
    rename_i hcomment
    obtain ⟨rfl, hstar⟩ := hcomment
    obtain ⟨body, rfl, hinside⟩ := comment_chars hstar (Option.some.inj hextent)
    have hshape : '/' :: '*' :: (body ++ ['*', '/']) ++ cs =
        '/' :: '*' :: (body ++ '*' :: '/' :: cs) := by
      simp
    rw [hshape]
    exact .comment hinside hgap
  · cases hextent

/-- Trivia between two tokens is a gap. -/
theorem Tiles.gap {ps : List Piece} {rest : List Char} (h : Tiles ps rest)
    (htrivia : ∀ p ∈ ps, p.isTrivia = true) : Gap rest (joined ps) := by
  induction ps with
  | nil => exact .nil
  | cons p ps ih =>
    obtain ⟨hp, hps⟩ := List.forall_mem_cons.1 htrivia
    exact h.1.gap hp (ih h.2 hps)

/-! ## Layout -/

/-- The text behind `before`, as its tokens lay it out: gaps with a token behind each, and
    the end of the text behind the last. -/
inductive Laid : List Char → List Token → List Char → Prop where
  | stop {before gap : List Char} {s : Span} (trivia : Gap [] gap)
      (place : s.Marks (before ++ gap) []) : Laid before [.eof s] gap
  | token {before gap rest : List Char} {t : Token} {ts : List Token}
      (trivia : Gap (t.text.toList ++ rest) gap) (kind : t.kind ≠ .eof) (text : t.text ≠ "")
      (place : t.span.Marks (before ++ gap) t.text.toList)
      (behind : Laid (before ++ gap ++ t.text.toList) ts rest) :
      Laid before (t :: ts) (gap ++ t.text.toList ++ rest)

namespace Lexeme

theorem token_text (w : Lexeme) (place : Place) : (w.token place).text.toList = w.piece.chars :=
  String.toList_ofList

theorem token_text_ne {w : Lexeme} {rest : List Char} (h : w.piece.Leads rest) (place : Place) :
    (w.token place).text ≠ "" := by
  obtain ⟨c, cs, hchars, -⟩ := h
  intro hempty
  have hnil := w.token_text place
  rw [hempty, hchars] at hnil
  cases hnil

/-- A lexeme is placed behind the trivia in front of it. -/
theorem token_marks (w : Lexeme) (before : List Char) :
    (w.token (Place.start.afterAll before)).span.Marks (before ++ joined w.gap)
      (w.token (Place.start.afterAll before)).text.toList := by
  have hmarks := Place.span_marks (before ++ joined w.gap) w.piece.chars
  rw [Place.afterAll_append] at hmarks
  rw [w.token_text]
  exact hmarks

end Lexeme

/-- Lexemes lay out the text that they are joined to. -/
theorem laid_lexemes (before : List Char) {ws : List Lexeme} {tail : List Piece}
    (htiles : Tiles (piecesOf ws ++ tail) []) (htail : ∀ p ∈ tail, p.isTrivia = true) :
    Laid before
      (placeLexemes (Place.start.afterAll before) ws ++
        [.eof ((Place.start.afterAll (before ++ joined (piecesOf ws ++ tail))).span [])])
      (joined (piecesOf ws ++ tail)) := by
  induction ws generalizing before with
  | nil => exact .stop (htiles.gap htail) (Place.span_marks _ _)
  | cons w ws ih =>
    rw [piecesOf_cons, List.append_assoc, List.cons_append] at htiles ⊢
    obtain ⟨hgap, hlead, hbehind⟩ := tiles_append.1 htiles
    have hrest := ih (before ++ joined w.pieces) hbehind
    -- the layout speaks of the token's text, and the tiling of the piece's characters
    have hchars := w.token_text (Place.start.afterAll before)
    have hnext : before ++ joined w.pieces = before ++ joined w.gap ++ w.piece.chars := by
      simp [Lexeme.pieces]
    rw [Place.afterAll_append, hnext, ← hchars] at hrest
    rw [List.append_nil, joined_cons, ← hchars] at hgap
    have hjoined : joined (w.gap ++ w.piece :: (piecesOf ws ++ tail)) =
        joined w.gap ++ (w.token (Place.start.afterAll before)).text.toList ++
          joined (piecesOf ws ++ tail) := by
      rw [hchars]
      simp
    rw [hjoined]
    refine .token (hgap.gap w.trivia) (Lexeme.kind_ne_eof hlead) (Lexeme.token_text_ne hlead _)
      (w.token_marks before) ?_
    rw [← List.append_assoc, ← List.append_assoc]
    exact hrest

/-! ## What follows from the layout -/

namespace Laid

variable {before rest : List Char} {ts : List Token}

/-- Tokens stand behind the text in front of them. -/
theorem le_start (h : Laid before ts rest) (hfits : bytes (before ++ rest) < UInt32.size) :
    ∀ t ∈ ts, bytes before ≤ t.span.start := by
  induction h with
  | @stop before gap s _ place =>
    intro t ht
    rw [List.mem_singleton.1 ht]
    show bytes before ≤ s.start
    rw [(place.offsets hfits).1, bytes_append]
    omega
  | @token before gap rest t ts _ _ _ place _ ih =>
    intro u hu
    simp only [bytes_append] at hfits ih
    rcases List.mem_cons.1 hu with rfl | hu
    · rw [(place.offsets (by rw [bytes_append]; omega)).1, bytes_append]
      omega
    · have hle := ih (by omega) u hu
      omega

/-- Tokens are not empty and stand one behind the other. -/
theorem increasing (h : Laid before ts rest) (hfits : bytes (before ++ rest) < UInt32.size) :
    ts.Pairwise fun t u => t.span.start < u.span.start ∧ t.span.stop ≤ u.span.start := by
  induction h with
  | stop _ _ => exact List.pairwise_singleton _ _
  | @token before gap rest t ts _ _ text place behind ih =>
    have hbehind : bytes (before ++ gap ++ t.text.toList ++ rest) < UInt32.size := by
      simpa [Nat.add_assoc] using hfits
    refine List.pairwise_cons.2 ⟨?_, ih hbehind⟩
    intro u hu
    have hle := behind.le_start hbehind u hu
    have hpos : 0 < bytes t.text.toList := bytes_pos (by simpa using text)
    simp only [bytes_append] at hbehind hle
    obtain ⟨hstart, hstop⟩ := place.offsets (by rw [bytes_append]; omega)
    rw [bytes_append] at hstart hstop
    omega

/-- The last token is the end of the text, and the others are not empty. -/
theorem last (h : Laid before ts rest) (hfits : bytes (before ++ rest) < UInt32.size) :
    ∃ us s, ts = us ++ [.eof s] ∧ s.start = bytes (before ++ rest) ∧
      s.stop = bytes (before ++ rest) ∧ ∀ t ∈ us, t.kind ≠ .eof ∧ t.span.start < t.span.stop := by
  induction h with
  | @stop before gap s _ place =>
    obtain ⟨hstart, hstop⟩ := place.offsets hfits
    exact ⟨[], s, rfl, hstart, hstop, List.forall_mem_nil _⟩
  | @token before gap rest t ts _ kind text place behind ih =>
    have hbehind : bytes (before ++ gap ++ t.text.toList ++ rest) < UInt32.size := by
      simpa [Nat.add_assoc] using hfits
    obtain ⟨us, s, rfl, hstart, hstop, hus⟩ := ih hbehind
    have hpos : 0 < bytes t.text.toList := bytes_pos (by simpa using text)
    have hfilled : t.span.start < t.span.stop := by
      simp only [bytes_append] at hbehind
      obtain ⟨hfirst, hlast⟩ := place.offsets (by rw [bytes_append]; omega)
      omega
    refine ⟨t :: us, s, rfl, ?_, ?_, List.forall_mem_cons.2 ⟨⟨kind, hfilled⟩, hus⟩⟩
    · simpa [Nat.add_assoc] using hstart
    · simpa [Nat.add_assoc] using hstop

/-- Each token stands in the text, and its span marks it there. -/
theorem marks (h : Laid before ts rest) : ∀ t ∈ ts, ∃ front behind,
    before ++ rest = front ++ t.text.toList ++ behind ∧ t.span.Marks front t.text.toList := by
  induction h with
  | @stop before gap s _ place =>
    intro t ht
    rw [List.mem_singleton.1 ht]
    exact ⟨before ++ gap, [], by simp [Token.eof], place⟩
  | @token before gap rest t ts _ _ _ place behind ih =>
    intro u hu
    rcases List.mem_cons.1 hu with rfl | hu
    · exact ⟨before ++ gap, rest, by simp, place⟩
    · obtain ⟨front, back, hsplit, hmarks⟩ := ih u hu
      exact ⟨front, back, by rw [← hsplit]; simp, hmarks⟩

/-- Each token stands behind the text in front of all of them. -/
theorem marks_behind (h : Laid before ts rest) :
    ∀ t ∈ ts, ∃ more, t.span.Marks (before ++ more) t.text.toList := by
  induction h with
  | @stop before gap s _ place =>
    intro t ht
    rw [List.mem_singleton.1 ht]
    exact ⟨gap, place⟩
  | @token before gap rest t ts _ _ _ place behind ih =>
    intro u hu
    rcases List.mem_cons.1 hu with rfl | hu
    · exact ⟨gap, place⟩
    · obtain ⟨more, hmarks⟩ := ih u hu
      refine ⟨gap ++ t.text.toList ++ more, ?_⟩
      simpa using hmarks

end Laid

/-! ## Tokens of a text -/

/-- Tokens that tile a text. -/
structure TiledBy (text : String) (tokens : List Token) : Prop where
  /-- Gaps of trivia stand between the tokens and around them. -/
  laid : Laid [] tokens text.toList
  /-- The last token is the empty one at the end of the text, and no other is empty. -/
  last : ∃ ts s, tokens = ts ++ [.eof s] ∧ s.start = text.utf8ByteSize ∧
    s.stop = text.utf8ByteSize ∧ ∀ t ∈ ts, t.kind ≠ .eof ∧ t.span.start < t.span.stop
  increasing : tokens.Pairwise fun t u =>
    t.span.start < u.span.start ∧ t.span.stop ≤ u.span.start
  /-- A span holds the bytes of its token. -/
  bytes : ∀ t ∈ tokens,
    text.toByteArray.extract t.span.start t.span.stop = t.text.toByteArray
  /-- Line and column are those that one counts in the text in front of the token. -/
  place : ∀ t ∈ tokens, ∃ front behind, text.toList = front ++ t.text.toList ++ behind ∧
    t.span.start = (String.ofList front).utf8ByteSize ∧
    t.span.line = 1 + front.count '\n' ∧ t.span.column = 1 + (lastLine front).length

/-- A text is laid out by its tokens. -/
theorem laid_of_tokenize {text : String} {tokens : List Token} (h : tokenize text = .ok tokens) :
    Laid [] tokens text.toList := by
  obtain ⟨ts, stop, hscan, rfl⟩ := scan_of_tokenize h
  obtain ⟨x, rfl, rfl⟩ := LexedText.exists_of_scan hscan
  rw [x.text_eq]
  exact laid_lexemes [] x.tiles x.trivia

end GatewayPolicy
