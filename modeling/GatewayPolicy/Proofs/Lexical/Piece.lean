import GatewayPolicy.Proofs.Lexical.Number

/-! # What a piece looks at

  The scanners of literals and numbers, put together with names, symbols and
  trivia.

  - `measure_bounds`: a piece that ends well is not empty and lies in the text.
  - `measure_front`: a token that lies in the front of a text is the first piece
    before any text that stops.
  - `measure_truncate`: a piece, trivia or not, is the first piece of every front
    that it lies in.
-/

namespace GatewayPolicy

open Text

/-! ## Names and symbols -/

theorem Stops.isPrefixOf_append {t : List Char} (ht : Stops t) :
    ∀ {s : List Char} (p : List Char), ' ' ∉ s → s.isPrefixOf (p ++ t) = s.isPrefixOf p
  | [], p, _ => by simp
  | c :: s, [], hs => by
    cases t with
    | nil => rfl
    | cons d ds =>
      have hd : d = ' ' := ht
      have hc : c ≠ ' ' := fun hc => hs (by simp [hc])
      simp [List.isPrefixOf, hd, hc]
  | c :: s, d :: p, hs => by
    have hs' : ' ' ∉ s := fun h => hs (List.mem_cons_of_mem c h)
    simp [List.isPrefixOf, ht.isPrefixOf_append p hs']

theorem Symbol.blank_notMem_text (s : Symbol) : ' ' ∉ s.text.toList := by
  cases s <;> decide

/-- The first symbol that a text starts with. -/
def firstSymbol? (cs : List Char) : Option Symbol :=
  Symbol.all.find? fun s => s.text.toList.isPrefixOf cs

/-- A symbol that lies in `p` is the first one in front of any text that stops. -/
theorem firstSymbol?_front {p t t' : List Char} (ht : Stops t') {s : Symbol}
    (h : firstSymbol? (p ++ t) = some s) (hs : s.text.length ≤ p.length) :
    firstSymbol? (p ++ t') = some s := by
  have hshort : ∀ s : Symbol, s.text.toList.isPrefixOf (p ++ t') = s.text.toList.isPrefixOf p :=
    fun s => ht.isPrefixOf_append p s.blank_notMem_text
  have hlong : ∀ s : Symbol, s.text.toList.isPrefixOf p → s.text.toList.isPrefixOf (p ++ t) := by
    intro s hp
    simp only [List.isPrefixOf_iff_prefix] at hp ⊢
    exact hp.trans (List.prefix_append p t)
  -- the symbols tried before `s` are too long for `p`, or differ from it
  simp only [firstSymbol?, hshort] at h ⊢
  rw [List.find?_eq_some_iff_append] at h ⊢
  obtain ⟨hfound, before, behind, hall, hbefore⟩ := h
  refine ⟨?_, before, behind, hall, ?_⟩
  · simp only [List.isPrefixOf_iff_prefix] at hfound ⊢
    exact List.prefix_of_prefix_length_le hfound (List.prefix_append p t)
      (by rw [String.length_toList]; exact hs)
  · intro a ha
    have := hbefore a ha
    have := hlong a
    grind

/-! ## Tokens -/

/-- What leads an interpolated string. -/
def isLead (c : Char) : Bool := c = '$' || c = '@'

theorem measureInterpolated_eq {c : Char} {cs body : List Char}
    (h : (c :: cs).drop (countWhile isLead (c :: cs)) = '"' :: body) :
    measureInterpolated c cs =
      (interpolatedExtent (c = '@' || cs.head? = some '@') .text body).after
        (countWhile isLead (c :: cs) + 1) := by
  have hlead : countWhile (fun d => d = '$' || d = '@') (c :: cs) = countWhile isLead (c :: cs) :=
    rfl
  unfold measureInterpolated
  simp only [hlead, h, if_true]

/-- An interpolated string that ends well has a quote behind its lead. -/
theorem quote_of_measureInterpolated {c : Char} {cs : List Char}
    (h : (measureInterpolated c cs).fault = none) :
    ∃ body, (c :: cs).drop (countWhile isLead (c :: cs)) = '"' :: body := by
  have hlead : countWhile (fun d => d = '$' || d = '@') (c :: cs) = countWhile isLead (c :: cs) :=
    rfl
  unfold measureInterpolated at h
  rw [hlead] at h
  cases hrest : (c :: cs).drop (countWhile isLead (c :: cs)) with
  | nil => simp [hrest] at h
  | cons q body =>
    by_cases hq : q = '"'
    · exact ⟨body, by rw [hq]⟩
    · simp [hrest, hq] at h

theorem measureInterpolated_bounds {c : Char} {cs : List Char}
    (h : (measureInterpolated c cs).fault = none) :
    2 ≤ (measureInterpolated c cs).size ∧ (measureInterpolated c cs).size ≤ cs.length + 1 := by
  obtain ⟨body, hbody⟩ := quote_of_measureInterpolated h
  have hlength := congrArg List.length hbody
  simp only [List.length_drop, List.length_cons] at hlength
  rw [measureInterpolated_eq hbody] at h ⊢
  have hbounds := interpolatedExtent_bounds h
  simp only [Extent.after_size]
  omega

theorem measureInterpolated_front {c : Char} {p t t' : List Char} (ht : Stops t')
    (h : (measureInterpolated c (p ++ t)).Ends (p.length + 1)) :
    measureInterpolated c (p ++ t') = measureInterpolated c (p ++ t) := by
  obtain ⟨hfault, hsize⟩ := h
  have hbounds := measureInterpolated_bounds hfault
  obtain ⟨body, hbody⟩ := quote_of_measureInterpolated hfault
  rw [measureInterpolated_eq hbody] at hfault hsize ⊢
  have hinner := interpolatedExtent_bounds hfault
  rw [Extent.after_size] at hsize
  -- the lead and the quote lie in the front, so they are the same in front of `t'`
  have hlead : countWhile isLead (c :: (p ++ t')) = countWhile isLead (c :: (p ++ t)) :=
    countWhile_front (p := c :: p) (by simp only [List.cons_append, List.length_cons]; omega)
      (ht.head_not rfl)
  generalize countWhile isLead (c :: (p ++ t)) = lead at *
  have hle : lead ≤ (c :: p).length := by simp only [List.length_cons]; omega
  have hdrop : ∀ t, (c :: (p ++ t)).drop lead = (c :: p).drop lead ++ t :=
    fun t => List.drop_append_of_le_length hle
  rw [hdrop] at hbody
  cases hfront : (c :: p).drop lead with
  | nil =>
    have := congrArg List.length hfront
    simp only [List.length_drop, List.length_cons, List.length_nil] at this
    omega
  | cons q inner =>
    rw [hfront, List.cons_append] at hbody
    obtain ⟨rfl, rfl⟩ := List.cons.inj hbody
    have hlength := congrArg List.length hfront
    simp only [List.length_drop, List.length_cons] at hlength
    have hbody' : (c :: (p ++ t')).drop lead = '"' :: (inner ++ t') := by
      rw [hdrop, hfront, List.cons_append]
    have hp : p ≠ [] := by
      rintro rfl
      simp only [List.length_nil] at hsize
      omega
    rw [← hlead] at hbody'
    rw [measureInterpolated_eq hbody', hlead, head_append (t := t) hp]
    exact congrArg _ (interpolatedExtent_front ht ⟨hfault, by omega⟩)

/-- The first piece of a text that is no trivia, as one choice after another. -/
theorem measureToken_eq (c : Char) (cs : List Char) : measureToken c cs =
    if c = '"' then (some .string, (quotedExtent '"' .openString cs).after 1)
    else if c = '@' ∧ cs.head?.any (· = '"') then
      (some .verbatimString, (verbatimExtent (cs.drop 1)).after 2)
    else if (c = '$' ∨ c = '@') ∧ cs.head?.any (['"', '$', '@'].contains ·) then
      (some .interpolatedString, measureInterpolated c cs)
    else if c = '@' ∧ cs.head?.any startsName then
      (some .identifier, { size := 1 + countWhile continuesName cs })
    else if c = '\'' then (some .character, (quotedExtent '\'' .openCharacter cs).after 1)
    else if c.isDigit ∨ c = '.' ∧ cs.head?.any Char.isDigit then
      (some (numberSize (c :: cs)).2, { size := (numberSize (c :: cs)).1 })
    else if startsName c then
      (some .identifier, { size := countWhile continuesName (c :: cs) })
    else
      match firstSymbol? (c :: cs) with
      | some s => (some (.symbol s), { size := s.text.length })
      | none => (none, { size := 1, fault := some (.unexpected c) }) := by
  simp only [measureToken, Bool.and_eq_true, Bool.or_eq_true, decide_eq_true_eq]
  rfl

theorem one_le_countWhile_of_startsName {cs : List Char} (h : cs.head?.any startsName) :
    1 ≤ countWhile continuesName cs := by
  cases cs with
  | nil => simp at h
  | cons c cs =>
    rw [countWhile_cons_pos cs (continuesName_of_startsName h)]
    omega

/-- Two choices with the same outcome, when the first one ends in its front. -/
theorem choice_front {b b' : Prop} [Decidable b] [Decidable b'] {e e' f f' : PieceKind × Extent}
    {n : Nat} (h : (if b then e else f).2.Ends n) (hpos : b → e.2.Ends n → b' ∧ e' = e)
    (hneg : ¬b → f.2.Ends n → ¬b' ∧ f' = f) : (if b' then e' else f') = if b then e else f := by
  by_cases hb : b
  · rw [if_pos hb] at h ⊢
    obtain ⟨hb', he⟩ := hpos hb h
    rw [if_pos hb', he]
  · rw [if_neg hb] at h ⊢
    obtain ⟨hb', hf⟩ := hneg hb h
    rw [if_neg hb', hf]

/-- A token that lies in `p` is measured the same in front of any text that stops. -/
theorem measureToken_front {c : Char} {p t t' : List Char} (ht : Stops t')
    (h : (measureToken c (p ++ t)).2.Ends (p.length + 1)) :
    measureToken c (p ++ t') = measureToken c (p ++ t) := by
  -- a token of two characters or more reaches into `p`
  have hfront : ∀ {n : Nat}, 2 ≤ n → n ≤ p.length + 1 → p ≠ [] := by
    rintro n hn hle rfl
    simp only [List.length_nil] at hle
    omega
  rw [measureToken_eq] at h
  rw [measureToken_eq, measureToken_eq]
  -- each choice asks for characters in front; if it is made before `t`, what it asks for
  -- lies in `p`, and if not, it is not made before a text that stops either
  -- strings
  refine choice_front h (fun hc h => ⟨hc, ?_⟩) fun hc h => ⟨hc, ?_⟩
  · rw [quotedExtent_front (by decide) (Extent.ends_after h)]
  -- verbatim strings
  refine choice_front h (fun hat h => ?_) fun hat h =>
    ⟨fun hat' => hat ⟨hat'.1, (ht.head_front rfl hat'.2).2⟩, ?_⟩
  · obtain ⟨x, p, rfl⟩ := List.exists_cons_of_ne_nil (hfront (by simp) h.2)
    have hbody := verbatimExtent_front ht (Extent.ends_after h)
    exact ⟨hat, congrArg (fun e => (_, Extent.after 2 e)) hbody⟩
  -- interpolated strings
  refine choice_front h (fun hlead h => ?_) fun hlead h =>
    ⟨fun hlead' => hlead ⟨hlead'.1, (ht.head_front rfl hlead'.2).2⟩, ?_⟩
  · have hp := hfront (measureInterpolated_bounds h.1).1 h.2
    rw [head_append (t := t) hp, measureInterpolated_front ht h]
    exact ⟨hlead, rfl⟩
  -- names behind an `@`
  refine choice_front h (fun hname h => ?_) fun hname h =>
    ⟨fun hname' => hname ⟨hname'.1, (ht.head_front rfl hname'.2).2⟩, ?_⟩
  · have hsize : 1 + countWhile continuesName (p ++ t) ≤ p.length + 1 := h.2
    have hlong := one_le_countWhile_of_startsName hname.2
    have hp := hfront (n := 1 + countWhile continuesName (p ++ t)) (by omega) hsize
    rw [head_append (t := t) hp, countWhile_front (t := t) (by omega) (ht.head_not rfl)]
    exact ⟨hname, rfl⟩
  -- characters
  refine choice_front h (fun hc h => ⟨hc, ?_⟩) fun hc h => ⟨hc, ?_⟩
  · rw [quotedExtent_front (by decide) (Extent.ends_after h)]
  -- numbers
  refine choice_front h (fun hnumber h => ?_) fun hnumber h => ⟨?_, ?_⟩
  · have hsize : (numberSize (c :: (p ++ t))).1 ≤ p.length + 1 := h.2
    rw [numberSize_front ht hsize]
    refine ⟨hnumber.imp_right fun ⟨hpoint, hdigit⟩ => ⟨hpoint, ?_⟩, rfl⟩
    subst hpoint
    rw [head_append (t := t) (hfront (two_le_numberSize hdigit) hsize)]
    exact hdigit
  · rintro (hdigit | ⟨hpoint, hdigit⟩)
    · exact hnumber (.inl hdigit)
    · exact hnumber (.inr ⟨hpoint, (ht.head_front rfl hdigit).2⟩)
  -- names and symbols
  refine choice_front h (fun hname h => ⟨hname, ?_⟩) fun hname h => ⟨hname, ?_⟩
  · have hrun : countWhile continuesName (c :: p ++ t') = countWhile continuesName (c :: p ++ t) :=
      countWhile_front h.2 (ht.head_not rfl)
    rw [List.cons_append, List.cons_append] at hrun
    rw [hrun]
  · cases hs : firstSymbol? (c :: (p ++ t)) with
    | none =>
      rw [hs] at h
      exact absurd h.1 (by simp)
    | some s =>
      rw [hs] at h
      have hs' : firstSymbol? (c :: p ++ t') = some s := firstSymbol?_front ht hs h.2
      rw [List.cons_append] at hs'
      rw [hs']

theorem firstSymbol?_isPrefix {cs : List Char} {s : Symbol} (h : firstSymbol? cs = some s) :
    s.text.toList <+: cs := by
  have hfound := List.find?_some h
  exact List.isPrefixOf_iff_prefix.1 hfound

theorem Symbol.one_le_length_text (s : Symbol) : 1 ≤ s.text.length := by
  cases s <;> decide

theorem measureToken_bounds {c : Char} {cs : List Char} (h : (measureToken c cs).2.fault = none) :
    1 ≤ (measureToken c cs).2.size ∧ (measureToken c cs).2.size ≤ cs.length + 1 := by
  revert h
  rw [measureToken_eq]
  -- one case for each sort of token, in the order in which they are tried
  split
  · intro h
    have := quotedExtent_bounds h
    simp only [Extent.after_size]
    omega
  split
  · intro h
    have := verbatimExtent_bounds h
    rw [List.length_drop] at this
    simp only [Extent.after_size]
    omega
  split
  · intro h
    have := measureInterpolated_bounds h
    simp only
    omega
  split
  · have := countWhile_le continuesName cs
    simp only
    omega
  split
  · intro h
    have := quotedExtent_bounds h
    simp only [Extent.after_size]
    omega
  split
  · rename_i hnumber
    have hle := numberSize_le c cs
    refine fun _ => ⟨?_, hle⟩
    rcases hnumber with hdigit | ⟨rfl, hdigit⟩
    · exact one_le_numberSize hdigit
    · have := two_le_numberSize hdigit
      simp only
      omega
  split
  · rename_i hname
    have hrun := countWhile_le continuesName (c :: cs)
    rw [countWhile_cons_pos cs (continuesName_of_startsName hname)] at hrun ⊢
    exact fun _ => ⟨by simp, hrun⟩
  · cases hs : firstSymbol? (c :: cs) with
    | none => simp
    | some s =>
      have hle := (firstSymbol?_isPrefix hs).length_le
      rw [String.length_toList, List.length_cons] at hle
      exact fun _ => ⟨s.one_le_length_text, hle⟩

/-! ## Pieces -/

theorem measureTrivia?_eq (c : Char) (cs : List Char) : measureTrivia? c cs =
    if isBlank c ∨ c = '\uFEFF' then some { size := 1 }
    else if c = '#' ∨ c = '/' ∧ cs.head?.any (· = '/') then
      some { size := countWhile (· ≠ '\n') (c :: cs) }
    else if c = '/' ∧ cs.head?.any (· = '*') then some ((commentExtent (cs.drop 1)).after 2)
    else none := by
  cases cs <;> simp [measureTrivia?]

theorem measure_of_trivia {c : Char} {cs : List Char} {e : Extent}
    (h : measureTrivia? c cs = some e) : measure c cs = (none, e) := by
  simp [measure, h]

theorem measure_of_token {c : Char} {cs : List Char} (h : measureTrivia? c cs = none) :
    measure c cs = measureToken c cs := by
  simp [measure, h]

/-- The first piece of a text, when it ends well, takes a character at least and
    none beyond the text. -/
theorem measure_bounds {c : Char} {cs : List Char} (h : (measure c cs).2.fault = none) :
    1 ≤ (measure c cs).2.size ∧ (measure c cs).2.size ≤ cs.length + 1 := by
  cases htrivia : measureTrivia? c cs with
  | none =>
    rw [measure_of_token htrivia] at h ⊢
    exact measureToken_bounds h
  | some e =>
    rw [measure_of_trivia htrivia] at h ⊢
    rw [measureTrivia?_eq] at htrivia
    -- a blank, a line that is skipped, or a comment between strokes and stars
    split at htrivia
    · cases htrivia
      simp
    split at htrivia
    · rename_i hline
      cases htrivia
      have hc : (decide (c ≠ '\n')) = true := by
        rcases hline with rfl | ⟨rfl, -⟩ <;> decide
      have hrun := countWhile_le (· ≠ '\n') (c :: cs)
      rw [countWhile_cons_pos cs hc] at hrun ⊢
      exact ⟨by simp, hrun⟩
    split at htrivia
    · cases htrivia
      have hbounds := commentExtent_bounds h
      rw [List.length_drop] at hbounds
      simp only [Extent.after_size]
      omega
    · cases htrivia

/-- What is no trivia is none in front of a text that stops. -/
theorem Stops.measureTrivia?_front {c : Char} {p t t' : List Char} (ht : Stops t')
    (h : measureTrivia? c (p ++ t) = none) : measureTrivia? c (p ++ t') = none := by
  have hhead : ∀ {q : Char → Bool}, q ' ' = false → (p ++ t').head?.any q →
      (p ++ t).head?.any q := fun hq h => (ht.head_front hq h).2
  rw [measureTrivia?_eq] at h ⊢
  split at h
  · cases h
  rename_i hblank
  split at h
  · cases h
  rename_i hline
  split at h
  · cases h
  rename_i hcomment
  rw [if_neg hblank,
    if_neg fun hline' => hline (hline'.imp_right fun ⟨hc, hd⟩ => ⟨hc, hhead rfl hd⟩),
    if_neg fun hcomment' => hcomment ⟨hcomment'.1, hhead rfl hcomment'.2⟩]

/-- A token that lies in `p` is the first piece in front of any text that stops. -/
theorem measure_front {c : Char} {p t t' : List Char} (ht : Stops t')
    (htoken : (measure c (p ++ t)).1 ≠ none) (h : (measure c (p ++ t)).2.Ends (p.length + 1)) :
    measure c (p ++ t') = measure c (p ++ t) := by
  cases htrivia : measureTrivia? c (p ++ t) with
  | some e => exact absurd (by rw [measure_of_trivia htrivia]) htoken
  | none =>
    rw [measure_of_token htrivia] at h ⊢
    rw [measure_of_token (ht.measureTrivia?_front htrivia)]
    exact measureToken_front ht h

/-- Trivia that lies in `p` is the first piece of `p` alone. -/
theorem measureTrivia?_truncate {c : Char} {p t : List Char} {e : Extent}
    (htrivia : measureTrivia? c (p ++ t) = some e) (h : e.Ends (p.length + 1)) :
    measureTrivia? c p = some e := by
  rw [measureTrivia?_eq] at htrivia ⊢
  split at htrivia
  · rename_i hblank
    rw [if_pos hblank, htrivia]
  rename_i hblank
  rw [if_neg hblank]
  split at htrivia
  · rename_i hline
    cases htrivia
    have hhead : c = '/' ∧ (p ++ t).head?.any (· = '/') → c = '/' ∧ p.head?.any (· = '/') := by
      rintro ⟨rfl, hd⟩
      refine ⟨rfl, ?_⟩
      cases p with
      | cons x p => exact hd
      | nil =>
        -- the second stroke would be taken too
        obtain ⟨ds, rfl⟩ : ∃ ds, t = '/' :: ds := by
          cases t with
          | nil => simp at hd
          | cons d ds => exact ⟨ds, by simpa using hd⟩
        have hsize := h.2
        rw [List.nil_append, countWhile_cons_pos _ rfl, countWhile_cons_pos _ rfl] at hsize
        simp only [List.length_nil] at hsize
        omega
    have hrun : countWhile (· ≠ '\n') (c :: p ++ []) = countWhile (· ≠ '\n') (c :: p ++ t) :=
      countWhile_front h.2 (by simp)
    rw [List.append_nil] at hrun
    rw [if_pos (hline.imp_right hhead), hrun, List.cons_append]
  rename_i hline
  split at htrivia
  · rename_i hcomment
    cases htrivia
    obtain ⟨rfl, hstar⟩ := hcomment
    have hbounds := commentExtent_bounds h.1
    have hsize := h.2
    rw [Extent.after_size] at hsize
    cases p with
    | nil => simp only [List.length_nil] at hsize; omega
    | cons x p =>
      have hbody := commentExtent_front (Extent.ends_after h) []
      rw [List.append_nil] at hbody
      have hx : ¬x = '/' := fun hx => hline (.inr ⟨rfl, by simp [hx]⟩)
      have hx' : x = '*' := by simpa using hstar
      simp [hx', hbody]
  · cases htrivia

/-- A piece that lies in `p`, trivia or not, is the first piece of `p` alone. -/
theorem measure_truncate {c : Char} {p t : List Char}
    (h : (measure c (p ++ t)).2.Ends (p.length + 1)) : measure c p = measure c (p ++ t) := by
  have hstop : Stops [] := trivial
  cases htrivia : measureTrivia? c (p ++ t) with
  | none =>
    rw [measure_of_token htrivia] at h
    have hfront : measureToken c (p ++ []) = measureToken c (p ++ t) := measureToken_front hstop h
    have htrivia' := hstop.measureTrivia?_front htrivia
    rw [List.append_nil] at hfront htrivia'
    rw [measure_of_token htrivia, measure_of_token htrivia', hfront]
  | some e =>
    rw [measure_of_trivia htrivia] at h ⊢
    exact measure_of_trivia (measureTrivia?_truncate htrivia h)

/-! ## What pieces of a kind look like -/

theorem numberSize_kind (cs : List Char) :
    (numberSize cs).2 = .integer ∨ (numberSize cs).2 = .real := by
  unfold numberSize decimalSize
  dsimp only
  split
  · exact .inl rfl
  split
  · exact .inr rfl
  split
  · exact .inl rfl
  · exact .inr rfl

theorem all_take_countWhile (p : Char → Bool) (cs : List Char) :
    (cs.take (countWhile p cs)).all p = true := by
  rw [countWhile, ← List.prefix_iff_eq_take.mp (List.takeWhile_prefix p)]
  exact List.all_takeWhile

/-- What is known of the first character of a piece and those behind it, by the
    kind of the piece. -/
def TokenKind.Fits (kind : TokenKind) (c : Char) (cs : List Char) (size : Nat) : Prop :=
  match kind with
  | .identifier =>
    (c = '@' ∨ startsName c = true) ∧ (cs.take (size - 1)).all continuesName = true
  | .integer | .real => NumberFront size (c :: cs)
  | .symbol s => s.text.toList <+: c :: cs ∧ size = s.text.length
  | .eof => False
  | _ => True

theorem measureToken_fits {c : Char} {cs : List Char} {kind : TokenKind}
    (h : (measureToken c cs).1 = some kind) : kind.Fits c cs (measureToken c cs).2.size := by
  revert h
  rw [measureToken_eq]
  split
  · rintro ⟨⟩
    trivial
  split
  · rintro ⟨⟩
    trivial
  split
  · rintro ⟨⟩
    trivial
  split
  · rename_i hname
    rintro ⟨⟩
    refine ⟨.inl hname.1, ?_⟩
    rw [Nat.add_sub_cancel_left]
    exact all_take_countWhile continuesName cs
  split
  · rintro ⟨⟩
    trivial
  split
  · -- a number is an integer or real, and made of the same characters
    intro h
    rcases numberSize_kind (c :: cs) with hkind | hkind
    · rw [hkind] at h
      cases h
      exact numberFront_number c cs
    · rw [hkind] at h
      cases h
      exact numberFront_number c cs
  split
  · rename_i hname
    rintro ⟨⟩
    refine ⟨.inr hname, ?_⟩
    rw [countWhile_cons_pos cs (continuesName_of_startsName hname), Nat.add_sub_cancel]
    exact all_take_countWhile continuesName cs
  · cases hs : firstSymbol? (c :: cs) with
    | none => rintro ⟨⟩
    | some s =>
      rintro ⟨⟩
      exact ⟨firstSymbol?_isPrefix hs, rfl⟩

theorem measure_fits {c : Char} {cs : List Char} {kind : TokenKind} {e : Extent}
    (h : measure c cs = (some kind, e)) : kind.Fits c cs e.size := by
  cases htrivia : measureTrivia? c cs with
  | some extent =>
    rw [measure_of_trivia htrivia] at h
    cases h
  | none =>
    rw [measure_of_token htrivia] at h
    have hkind : (measureToken c cs).1 = some kind := by rw [h]
    have hfits := measureToken_fits hkind
    rw [h] at hfits
    exact hfits

end GatewayPolicy
