import GatewayPolicy.Proofs.Lexical.Places
import GatewayPolicy.Proofs.Lexical.Stretch

/-! # The contents of literals

  A literal stands for what is written between its quotes. The quotes are found by their
  places in the text of the literal, counted in bytes.

  - `slice?` cuts a text at two byte offsets and gives nothing where that is impossible.
  - `measureToken_quoted` finds the quotes of a literal that ends well.
  - `LexedText.slice?_quoted` cuts every literal of a text between its quotes.
-/

namespace GatewayPolicy

open Text

/-- The characters of a text between two byte offsets. There are none if the offsets are in
    the wrong order, lie behind the end of the text or cut a character. -/
def slice? (text : String) (start stop : Nat) : Option (List Char) :=
  if start ≤ stop then (dropBytes start text.toList).bind (takeBytes (stop - start)) else none

theorem slice?_eq_some {text : String} {before inside behind : List Char}
    (h : text.toList = before ++ inside ++ behind) :
    slice? text (bytes before) (bytes (before ++ inside)) = some inside := by
  have hstop : bytes (before ++ inside) = bytes before + bytes inside := bytes_append _ _
  rw [slice?, if_pos (by omega), h, List.append_assoc, dropBytes_append, hstop,
    Nat.add_sub_cancel_left]
  exact takeBytes_append inside behind

/-! ## Closing quotes -/

/-- A string or character that ends well ends with its closing quote. -/
theorem quotedExtent_ends {close : Char} {fault : LexicalFault} {cs : List Char}
    (h : (quotedExtent close fault cs).fault = none) : ∃ inside rest,
      cs = inside ++ close :: rest ∧ (quotedExtent close fault cs).size = inside.length + 1 := by
  fun_induction quotedExtent close fault cs with
  | case1 => cases h
  | case2 => exact ⟨[], [], rfl, rfl⟩
  | case3 => cases h
  | case4 d cs ih =>
    -- a backslash takes the next character along, so the quote is further behind
    obtain ⟨inside, rest, rfl, hsize⟩ := ih h
    refine ⟨'\\' :: d :: inside, rest, rfl, ?_⟩
    rw [Extent.after_size, hsize, List.length_cons, List.length_cons]
    omega
  | case5 d cs => exact ⟨[], d :: cs, rfl, rfl⟩
  | case6 => cases h
  | case7 c d cs _ _ _ ih =>
    obtain ⟨inside, rest, hcs, hsize⟩ := ih h
    refine ⟨c :: inside, rest, by rw [hcs]; rfl, ?_⟩
    rw [Extent.after_size, hsize, List.length_cons]
    omega

/-- A verbatim string that ends well ends with its closing quote. -/
theorem verbatimExtent_ends {cs : List Char} (h : (verbatimExtent cs).fault = none) :
    ∃ inside rest, cs = inside ++ '"' :: rest ∧
      (verbatimExtent cs).size = inside.length + 1 := by
  fun_induction verbatimExtent cs with
  | case1 => cases h
  | case2 => exact ⟨[], [], rfl, rfl⟩
  | case3 => cases h
  | case4 cs ih =>
    -- two quotes stand for one and do not end the string
    obtain ⟨inside, rest, rfl, hsize⟩ := ih h
    refine ⟨'"' :: '"' :: inside, rest, rfl, ?_⟩
    rw [Extent.after_size, hsize, List.length_cons, List.length_cons]
    omega
  | case5 d cs => exact ⟨[], d :: cs, rfl, rfl⟩
  | case6 c d cs _ ih =>
    obtain ⟨inside, rest, hcs, hsize⟩ := ih h
    refine ⟨c :: inside, rest, by rw [hcs]; rfl, ?_⟩
    rw [Extent.after_size, hsize, List.length_cons]
    omega

/-- What ends well behind its opening stands between its quotes. -/
theorem Extent.quoted_after (opening : List Char) {cs : List Char} {close : Char} {e : Extent}
    (h : ∃ inside rest, cs = inside ++ close :: rest ∧ e.size = inside.length + 1) :
    ∃ inside rest, opening ++ cs = opening ++ inside ++ close :: rest ∧
      (e.after opening.length).size = opening.length + inside.length + 1 := by
  obtain ⟨inside, rest, rfl, hsize⟩ := h
  refine ⟨inside, rest, (List.append_assoc ..).symm, ?_⟩
  rw [Extent.after_size, hsize, Nat.add_assoc]

/-! ## Literals -/

/-- What a literal of a kind is written between, if its content is cut out of it. -/
def TokenKind.quotes? : TokenKind → Option (List Char × Char)
  | .string => some (['"'], '"')
  | .character => some (['\''], '\'')
  | .verbatimString => some (['@', '"'], '"')
  | _ => none

theorem numberSize_quotes? (cs : List Char) : (numberSize cs).2.quotes? = none := by
  rcases numberSize_kind cs with hkind | hkind
  · rw [hkind]
    rfl
  · rw [hkind]
    rfl

/-- A literal that ends well stands between its quotes. -/
theorem measureToken_quoted {c : Char} {cs opening : List Char} {close : Char} {kind : TokenKind}
    (hkind : (measureToken c cs).1 = some kind) (hfault : (measureToken c cs).2.fault = none)
    (hquotes : kind.quotes? = some (opening, close)) : ∃ inside rest,
      c :: cs = opening ++ inside ++ close :: rest ∧
        (measureToken c cs).2.size = opening.length + inside.length + 1 := by
  revert hkind hfault
  rw [measureToken_eq]
  split
  · rename_i hc
    rintro ⟨⟩ hfault
    cases hquotes
    rw [hc]
    exact Extent.quoted_after [_] (quotedExtent_ends hfault)
  split
  · rename_i hc
    rintro ⟨⟩ hfault
    cases hquotes
    obtain ⟨hat, hquote⟩ := hc
    have hcs' : cs = '"' :: cs.drop 1 := by
      cases cs with
      | nil => cases hquote
      | cons d ds =>
        have hd : d = '"' := by simpa using hquote
        rw [hd]
        rfl
    rw [hat, show '@' :: cs = ['@', '"'] ++ cs.drop 1 from congrArg _ hcs']
    exact Extent.quoted_after ['@', '"'] (verbatimExtent_ends hfault)
  split
  · rintro ⟨⟩
    cases hquotes
  split
  · rintro ⟨⟩
    cases hquotes
  split
  · rename_i hc
    rintro ⟨⟩ hfault
    cases hquotes
    rw [hc]
    exact Extent.quoted_after [_] (quotedExtent_ends hfault)
  split
  · intro h
    have hnone := numberSize_quotes? (c :: cs)
    rw [Option.some.inj h, hquotes] at hnone
    cases hnone
  split
  · rintro ⟨⟩
    cases hquotes
  · cases hs : firstSymbol? (c :: cs) with
    | none => rintro ⟨⟩
    | some s =>
      rintro ⟨⟩
      cases hquotes

theorem Piece.Leads.quoted {p : Piece} {rest opening : List Char} {close : Char}
    {kind : TokenKind} (h : p.Leads rest) (hkind : p.kind = some kind)
    (hquotes : kind.quotes? = some (opening, close)) :
    ∃ inside, p.chars = opening ++ inside ++ [close] := by
  obtain ⟨c, cs, hchars, hmeasure⟩ := h
  rw [hkind] at hmeasure
  cases htrivia : measureTrivia? c (cs ++ rest) with
  | some e =>
    rw [measure_of_trivia htrivia] at hmeasure
    cases hmeasure
  | none =>
    rw [measure_of_token htrivia] at hmeasure
    obtain ⟨inside, behind, hsplit, hsize⟩ :=
      measureToken_quoted (by rw [hmeasure]) (by rw [hmeasure]) hquotes
    refine ⟨inside, ?_⟩
    -- the piece and the literal are prefixes of one length
    have hlength : (opening ++ inside ++ [close]).length = (c :: cs).length := by
      rw [hmeasure] at hsize
      simp only [List.length_append, List.length_cons]
      exact hsize.symm
    have hwhole : (c :: cs) ++ rest = (opening ++ inside ++ [close]) ++ behind := by
      rw [List.cons_append, hsplit, List.append_assoc (opening ++ inside), List.singleton_append]
    rw [hchars]
    exact (List.append_inj hwhole hlength.symm).1

/-- Every literal of a text is cut between its quotes, at places inside the literal that
    no character lies across. -/
theorem LexedText.slice?_quoted {text : String} (x : LexedText text) {t : Token}
    (ht : t ∈ placeLexemes Place.start x.lexemes) {opening : List Char} {close : Char}
    (hquotes : t.kind.quotes? = some (opening, close)) :
    slice? t.text (bytes opening) (t.text.utf8ByteSize - 1) =
      some (t.text.toList.drop opening.length).dropLast := by
  obtain ⟨i, hi⟩ := List.mem_iff_getElem?.mp ht
  obtain ⟨us, w, vs, hws, -, rfl⟩ := getElem?_placeLexemes hi
  obtain ⟨rest, hleads⟩ := x.tiles.leads (p := w.piece) (by simp [hws])
  obtain ⟨inside, hchars⟩ := hleads.quoted w.kind_eq hquotes
  have htext := w.token_text (Place.start.afterAll (joined (piecesOf us)))
  rw [hchars] at htext
  have hclose : bytes [close] = 1 := by
    generalize hkind : (w.token (Place.start.afterAll (joined (piecesOf us)))).kind = kind
      at hquotes
    cases kind <;> cases hquotes <;> rfl
  have hsize : (w.token (Place.start.afterAll (joined (piecesOf us)))).text.utf8ByteSize - 1 =
      bytes (opening ++ inside) := by
    rw [← String.ofList_toList (s := (w.token _).text), htext, ← bytes_eq_utf8ByteSize,
      bytes_append, hclose, Nat.add_sub_cancel]
  have hinside : (opening ++ inside ++ [close]).drop opening.length = inside ++ [close] := by
    rw [List.append_assoc, List.drop_left]
  rw [hsize, slice?_eq_some htext, htext, hinside, List.dropLast_concat]

end GatewayPolicy
