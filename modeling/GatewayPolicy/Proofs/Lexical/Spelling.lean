import GatewayPolicy.Authoring.Literal
import GatewayPolicy.Proofs.Lexical.Stripping

/-! # How names and texts are spelt

  A name is spelt by its characters. A text is spelt as a literal, and there are two ways
  to do it: a regular literal escapes some of its characters, and a verbatim one doubles
  its quotes. Each spelling is one token, wherever it stands in front of a character that
  cannot continue it, and the literal stands for the text that was spelt.

  - `PlainName` are the names that can be used as they are.
  - `Quote` are the two ways to spell a text.
  - `PlainName.leads`, `Quote.leads` and `Symbol.leads` say that each spelling is one piece
    of the text it stands in.
  - `Quote.stringOf_regular` and `Quote.verbatimOf_verbatim` say that a literal stands for
    the text that was spelt.
-/

namespace GatewayPolicy

open Text

/-! ## Characters of names -/

/-- From 0x80 on, the ranges of blanks and letters lie apart. -/
theorem blankRanges_letterRanges :
    blankRanges.all (fun r => letterRanges.all fun l => l.2 < r.1 || r.2 < l.1) = true := by
  decide +kernel

/-- A blank is no letter. -/
theorem not_isLetter_of_isBlank {c : Char} (h : isBlank c = true) : isLetter c = false := by
  unfold isBlank at h
  unfold isLetter
  by_cases hsmall : c.toNat < 0x80
  · have hall : ∀ n < 0x80, (Char.ofNat n = ' ' || (9 ≤ (Char.ofNat n).toNat &&
        (Char.ofNat n).toNat ≤ 13)) = true → (Char.ofNat n).isAlpha = false := by
      decide +kernel
    rw [if_pos hsmall] at h ⊢
    have hc := hall c.toNat hsmall
    rw [Char.ofNat_toNat] at hc
    exact hc h
  · rw [if_neg hsmall] at h ⊢
    obtain ⟨r, hr, hin⟩ := List.any_eq_true.1 h
    have hapart := List.all_eq_true.1 blankRanges_letterRanges r hr
    apply List.any_eq_false.2
    intro l hl
    have hl := List.all_eq_true.1 hapart l hl
    simp only [Bool.or_eq_true, Bool.and_eq_true, decide_eq_true_eq] at hin hl ⊢
    omega

/-- A digit starts no name. -/
theorem not_startsName_of_isDigit {c : Char} (h : c.isDigit = true) : startsName c = false := by
  have hall : ∀ n < 0x80, (Char.ofNat n).isDigit = true → startsName (Char.ofNat n) = false := by
    decide +kernel
  have hsmall : c.toNat < 0x80 := by
    have hle : c.val ≤ '9'.val := by simpa using ((Bool.and_eq_true _ _).mp h).2
    exact Nat.lt_of_le_of_lt (UInt32.le_iff_toNat_le.mp hle) (by decide)
  have hc := hall c.toNat hsmall
  rw [Char.ofNat_toNat] at hc
  exact hc h

theorem ne_of_startsName {c : Char} (h : startsName c = true) (d : Char)
    (hd : startsName d = false) : c ≠ d := by
  rintro rfl
  rw [h] at hd
  cases hd

/-- What starts a name starts no trivia. -/
theorem measureTrivia?_of_startsName {c : Char} (h : startsName c = true) (cs : List Char) :
    measureTrivia? c cs = none := by
  have hblank : isBlank c = false := by
    cases hb : isBlank c with
    | false => rfl
    | true =>
      have hletter := not_isLetter_of_isBlank hb
      rw [startsName, hletter, Bool.false_or, decide_eq_true_eq] at h
      rw [h] at hb
      cases hb
  have hne := ne_of_startsName h
  rw [measureTrivia?_eq, if_neg, if_neg, if_neg]
  · exact fun hc => hne '/' (by decide) hc.1
  · rintro (hc | hc)
    · exact hne '#' (by decide) hc
    · exact hne '/' (by decide) hc.1
  · rintro (hc | hc)
    · rw [hblank] at hc
      cases hc
    · exact hne '\uFEFF' (by decide +kernel) hc

/-! ## Names -/

/-- Whether some characters spell a name. An `@` may lead it. -/
def spellsName : List Char → Bool
  | [] => false
  | '@' :: cs => cs.head?.any startsName && cs.all continuesName
  | c :: cs => startsName c && cs.all continuesName

/-- The piece that a word is. -/
def wordPiece (word : String) : Piece := { kind := some .identifier, chars := word.toList }

@[simp] theorem wordPiece_chars (word : String) : (wordPiece word).chars = word.toList := rfl

/-- A run of characters ends where the next one does not belong to it. -/
theorem countWhile_append {q : Char → Bool} {p t : List Char} (hp : p.all q = true)
    (ht : t.head?.any q = false) : countWhile q (p ++ t) = p.length := by
  have hstop : t.takeWhile q = [] := by
    cases t with
    | nil => rfl
    | cons c t => exact List.takeWhile_cons_of_neg (by simpa using ht)
  rw [countWhile, List.takeWhile_append_of_pos (List.all_eq_true.1 hp), hstop, List.append_nil]

theorem Piece.leads_of_chars {p : Piece} {c : Char} {cs rest : List Char}
    (hchars : p.chars = c :: cs)
    (hmeasure : measure c (cs ++ rest) = (p.kind, { size := cs.length + 1 })) : p.Leads rest :=
  ⟨c, cs, hchars, hmeasure⟩

/-- A word is one piece in front of whatever cannot continue it. -/
theorem wordPiece_leads {word : String} (hword : spellsName word.toList = true)
    {rest : List Char} (hrest : rest.head?.any continuesName = false) :
    (wordPiece word).Leads rest := by
  unfold spellsName at hword
  split at hword
  · cases hword
  · -- behind an `@` stands the start of a name, so no string is led by it
    rename_i cs hchars
    obtain ⟨hhead, hcs⟩ := (Bool.and_eq_true _ _).mp hword
    apply Piece.leads_of_chars (p := wordPiece word) hchars
    obtain ⟨c, cs, rfl⟩ := List.exists_cons_of_ne_nil (l := cs) (by rintro rfl; cases hhead)
    have hc : startsName c = true := hhead
    have hne := ne_of_startsName hc
    have hlead : ['"', '$', '@'].contains c = false := by
      simp [hne '"' (by decide), hne '$' (by decide), hne '@' (by decide)]
    rw [measure_of_token rfl, measureToken_eq, if_neg (by decide), if_neg, if_neg, if_pos]
    · rw [countWhile_append hcs hrest]
      simp [wordPiece, Nat.add_comm]
    · exact ⟨rfl, hc⟩
    · rintro ⟨-, hquote⟩
      rw [List.cons_append, List.head?_cons, Option.any_some, hlead] at hquote
      cases hquote
    · rintro ⟨-, hquote⟩
      exact hne '"' (by decide) (by simpa using hquote)
  · -- what starts a name starts nothing else
    rename_i c cs hat hchars
    obtain ⟨hc, hcs⟩ := (Bool.and_eq_true _ _).mp hword
    apply Piece.leads_of_chars (p := wordPiece word) hchars
    have hne := ne_of_startsName hc
    have hdigit : c.isDigit = false := by
      cases hd : c.isDigit with
      | false => rfl
      | true =>
        rw [not_startsName_of_isDigit hd] at hc
        cases hc
    rw [measure_of_token (measureTrivia?_of_startsName hc _), measureToken_eq]
    simp only [hne '"' (by decide), hne '@' (by decide), hne '$' (by decide),
      hne '\'' (by decide), hne '.' (by decide), hdigit, hc, false_and, or_self, if_false, if_true,
      Bool.false_eq_true]
    rw [countWhile_cons_pos _ (continuesName_of_startsName hc), countWhile_append hcs hrest]
    rfl

/-- A name that is not reserved. -/
structure PlainName where
  text : String
  spelt : spellsName text.toList = true
  free : isReserved text = false

theorem PlainName.leads (name : PlainName) {rest : List Char}
    (hrest : rest.head?.any continuesName = false) : (wordPiece name.text).Leads rest :=
  wordPiece_leads name.spelt hrest

/-- A name ends with a character that can continue a name. -/
theorem continuesName_of_getLast? {cs : List Char} (h : spellsName cs = true) {c : Char}
    (hc : cs.getLast? = some c) : continuesName c = true := by
  have hlast : ∀ {d : Char} {ds : List Char}, ds ≠ [] → ds.all continuesName = true →
      (d :: ds).getLast? = some c → continuesName c = true := by
    intro d ds hds hall hc
    rw [List.getLast?_cons_of_ne_nil hds] at hc
    exact List.all_eq_true.1 hall c (List.mem_of_getLast? hc)
  unfold spellsName at h
  split at h
  · cases h
  · rename_i ds
    obtain ⟨hhead, hds⟩ := (Bool.and_eq_true _ _).mp h
    refine hlast ?_ hds hc
    rintro rfl
    cases hhead
  · rename_i d ds _
    obtain ⟨hd, hds⟩ := (Bool.and_eq_true _ _).mp h
    by_cases hnil : ds = []
    · subst hnil
      cases hc
      exact continuesName_of_startsName hd
    · exact hlast hnil hds hc

/-! ## Symbols -/

/-- The piece that a symbol is. -/
def Symbol.piece (s : Symbol) : Piece := { kind := some (.symbol s), chars := s.text.toList }

@[simp] theorem Symbol.piece_chars (s : Symbol) : s.piece.chars = s.text.toList := rfl

/-- Brackets and separators, which no longer symbol starts with. -/
def Symbol.isLone : Symbol → Bool
  | openBrace | closeBrace | openParen | closeParen | openBracket | closeBracket => true
  | semicolon | comma => true
  | _ => false

/-- A bracket or separator is one piece, whatever follows. -/
theorem Symbol.leads {s : Symbol} (h : s.isLone = true) (rest : List Char) :
    s.piece.Leads rest := by
  cases s <;> first | exact absurd h (by decide) | exact ⟨_, [], rfl, rfl⟩

/-- An equals sign is one piece in front of a blank. -/
theorem Symbol.assign_leads (rest : List Char) : Symbol.assign.piece.Leads (' ' :: rest) :=
  ⟨'=', [], rfl, rfl⟩

/-! ## Texts -/

/-- A character in a regular literal: a backslash, a quote or a line feed is escaped. -/
def escapeChar (c : Char) : List Char :=
  if c = '\\' then ['\\', '\\']
  else if c = '"' then ['\\', '"']
  else if c = '\n' then ['\\', 'n']
  else [c]

/-- A character in a verbatim literal: a quote is written twice. -/
def doubleChar (c : Char) : List Char := if c = '"' then ['"', '"'] else [c]

theorem decodeEscapes_escapeChar (c : Char) (cs : List Char) :
    decodeEscapes (escapeChar c ++ cs) = c :: decodeEscapes cs := by
  unfold escapeChar
  split
  · rename_i hslash
    rw [hslash]
    rfl
  split
  · rename_i hquote
    rw [hquote]
    rfl
  split
  · rename_i hfeed
    rw [hfeed]
    rfl
  · rename_i hslash _ _
    rw [List.singleton_append, decodeEscapes]
    all_goals simp_all

theorem undouble_doubleChar (c : Char) (cs : List Char) :
    undouble (doubleChar c ++ cs) = c :: undouble cs := by
  unfold doubleChar
  split
  · rename_i hquote
    rw [hquote]
    rfl
  · rename_i hquote
    rw [List.singleton_append, undouble]
    simp_all

/-- An escaped character neither ends a regular literal nor breaks it. -/
theorem quotedExtent_escapeChar (fault : LexicalFault) (c : Char) {cs : List Char}
    (hcs : cs ≠ []) : quotedExtent '"' fault (escapeChar c ++ cs) =
      (quotedExtent '"' fault cs).after (escapeChar c).length := by
  unfold escapeChar
  split
  · rfl
  split
  · rfl
  split
  · rfl
  · rename_i hslash hquote hfeed
    obtain ⟨d, cs, rfl⟩ := List.exists_cons_of_ne_nil hcs
    rw [List.singleton_append, quotedExtent, if_neg hslash, if_neg hquote, if_neg hfeed]
    rfl

/-- A character of which the quotes are doubled does not end a verbatim literal. -/
theorem verbatimExtent_doubleChar (c : Char) {cs : List Char} (hcs : cs ≠ []) :
    verbatimExtent (doubleChar c ++ cs) = (verbatimExtent cs).after (doubleChar c).length := by
  unfold doubleChar
  split
  · rfl
  · rename_i hquote
    obtain ⟨d, cs, rfl⟩ := List.exists_cons_of_ne_nil hcs
    rw [List.singleton_append, verbatimExtent, if_neg hquote]
    rfl

/-- A measure that takes a body character by character takes all of it. -/
theorem extent_flatMap {extent : List Char → Extent} {spell : Char → List Char}
    (hstep : ∀ c cs, cs ≠ [] → extent (spell c ++ cs) = (extent cs).after (spell c).length)
    (body : List Char) {rest : List Char} (hrest : rest ≠ []) :
    extent (body.flatMap spell ++ rest) = (extent rest).after (body.flatMap spell).length := by
  induction body with
  | nil => simp [Extent.after]
  | cons c body ih =>
    rw [List.flatMap_cons, List.append_assoc, hstep c _ (by simp [hrest]), ih]
    simp [Extent.after, Nat.add_assoc]

/-- The two ways to spell a text. -/
inductive Quote where
  /-- Between quotes, some characters escaped. -/
  | regular
  /-- Between quotes led by an `@`, quotes doubled. -/
  | verbatim
  deriving DecidableEq, Repr

namespace Quote

/-- The kind of the literal. -/
def kind : Quote → TokenKind
  | regular => .string
  | verbatim => .verbatimString

/-- The literal that spells a text. -/
def code : Quote → String → String
  | regular, text => "\"" ++ String.ofList (text.toList.flatMap escapeChar) ++ "\""
  | verbatim, text => "@\"" ++ String.ofList (text.toList.flatMap doubleChar) ++ "\""

/-- The piece that the literal is. -/
def piece (q : Quote) (text : String) : Piece :=
  { kind := some q.kind, chars := (q.code text).toList }

theorem toList_regular (text : String) :
    (regular.code text).toList = '"' :: (text.toList.flatMap escapeChar ++ ['"']) := by
  simp [code]

theorem toList_verbatim (text : String) :
    (verbatim.code text).toList = '@' :: '"' :: (text.toList.flatMap doubleChar ++ ['"']) := by
  simp [code]

/-- A regular literal stands for the text that it spells. -/
theorem stringOf_regular (text : String) : stringOf (regular.code text) = text := by
  have hbody : ∀ cs : List Char, decodeEscapes (cs.flatMap escapeChar) = cs := by
    intro cs
    induction cs with
    | nil => rfl
    | cons c cs ih => rw [List.flatMap_cons, decodeEscapes_escapeChar, ih]
  rw [stringOf, toList_regular, List.drop_one, List.tail_cons, List.dropLast_concat, hbody,
    String.ofList_toList]

/-- A verbatim literal stands for the text that it spells. -/
theorem verbatimOf_verbatim (text : String) : verbatimOf (verbatim.code text) = text := by
  have hbody : ∀ cs : List Char, undouble (cs.flatMap doubleChar) = cs := by
    intro cs
    induction cs with
    | nil => rfl
    | cons c cs ih => rw [List.flatMap_cons, undouble_doubleChar, ih]
  rw [verbatimOf, toList_verbatim, List.drop_succ_cons, List.drop_one, List.tail_cons,
    List.dropLast_concat, hbody, String.ofList_toList]

/-- A literal is one piece, unless another quote follows. -/
theorem leads (q : Quote) (text : String) {rest : List Char} (hrest : rest.head? ≠ some '"') :
    (q.piece text).Leads rest := by
  cases q with
  | regular =>
    have hchars : (regular.piece text).chars =
        '"' :: (text.toList.flatMap escapeChar ++ ['"']) := by
      simp only [piece, toList_regular]
    apply Piece.leads_of_chars hchars
    have hend : quotedExtent '"' .openString ('"' :: rest) = { size := 1 } := by
      cases rest <;> rfl
    have hbody := @extent_flatMap (quotedExtent '"' .openString) escapeChar
      (fun c _ => quotedExtent_escapeChar .openString c) text.toList _ (List.cons_ne_nil '"' rest)
    rw [measure_of_token rfl, measureToken_eq, if_pos rfl, List.append_assoc,
      List.singleton_append, hbody, hend]
    simp [Extent.after, piece, kind, Nat.add_comm]
  | verbatim =>
    have hchars : (verbatim.piece text).chars =
        '@' :: '"' :: (text.toList.flatMap doubleChar ++ ['"']) := by
      simp only [piece, toList_verbatim]
    apply Piece.leads_of_chars hchars
    have hend : verbatimExtent ('"' :: rest) = { size := 1 } := by
      cases rest with
      | nil => rfl
      | cons d rest =>
        have hd : d ≠ '"' := by simpa using hrest
        rw [verbatimExtent, if_pos rfl, if_neg hd]
    have hbody := @extent_flatMap verbatimExtent doubleChar
      (fun c _ => verbatimExtent_doubleChar c) text.toList _ (List.cons_ne_nil '"' rest)
    rw [measure_of_token rfl, measureToken_eq, if_neg (by decide), if_pos ⟨rfl, rfl⟩]
    rw [List.cons_append, List.drop_one, List.tail_cons, List.append_assoc,
      List.singleton_append, hbody, hend]
    simp [Extent.after, piece, kind]
    omega

end Quote

/-! ## Spellings as tokens, places aside -/

/-- How a symbol is spelt, as a token. -/
def Symbol.face (s : Symbol) : TokenKind × String := (.symbol s, s.text)

@[simp] theorem face?_wordPiece (word : String) :
    (wordPiece word).face? = some (.identifier, word) := by
  simp [Piece.face?, wordPiece]

@[simp] theorem face?_symbolPiece (s : Symbol) : s.piece.face? = some s.face := by
  simp [Piece.face?, Symbol.piece, Symbol.face]

@[simp] theorem face?_quotePiece (quote : Quote) (s : String) :
    (quote.piece s).face? = some (quote.kind, quote.code s) := by
  simp [Piece.face?, Quote.piece]

@[simp] theorem face?_blankPiece : blankPiece.face? = none := rfl

end GatewayPolicy
