import GatewayPolicy.Proofs.Lexical.Literal

/-! # What numbers look at

  A number looks up to three characters beyond its end: a point and a digit, or
  the letter, the sign and a digit of an exponent. In front of a text that stops
  none of them is there, so a number that lies in the front of a text is the
  same before every such text.

  - `numberSize_front` is that statement for whole numbers.
  - `numberSize_le` bounds a number by its text.
  - `numberFront_number` says what characters a number is made of.
-/

namespace GatewayPolicy

/-! ## Numbers -/

/-- Neither a fraction nor an exponent goes on in a text that stops. -/
theorem number_stops {t : List Char} (ht : Stops t) :
    fractionSize t = 0 ∧ fractionSize ('.' :: t) = 0 ∧ exponentSize t = 0 ∧
      ∀ e, exponentSize (e :: t) = 0 := by
  cases t with
  | nil => simp [fractionSize, exponentSize]
  | cons d ds =>
    have hd : d = ' ' := ht
    subst hd
    have hrun : countWhile Char.isDigit (' ' :: ds) = 0 := countWhile_cons_neg ds rfl
    simp [fractionSize, exponentSize, hrun]

theorem fractionSize_front {p t t' : List Char} (ht : Stops t')
    (h : fractionSize (p ++ t) ≤ p.length) :
    fractionSize (p ++ t') = fractionSize (p ++ t) := by
  obtain ⟨hstop, hpoint, -, -⟩ := number_stops ht
  match p with
  | [] =>
    have hzero : fractionSize t = 0 := by simpa using h
    simp only [List.nil_append]
    rw [hzero, hstop]
  | [c] =>
    by_cases hc : c = '.'
    · subst hc
      have hzero : fractionSize ('.' :: t) = 0 := by
        cases t with
        | nil => rfl
        | cons d ds =>
          cases hd : d.isDigit with
          | false => simp [fractionSize, hd]
          | true =>
            -- a digit behind the point would be taken too
            have hgrouped : isGrouped d = true := by simp [isGrouped, hd]
            have hsize : fractionSize ('.' :: d :: ds) = 1 + (countWhile isGrouped ds + 1) := by
              rw [fractionSize, if_pos hd, countWhile_cons_pos ds hgrouped]
            rw [List.singleton_append, hsize, List.length_singleton] at h
            omega
      exact hpoint.trans hzero.symm
    · simp [fractionSize, hc]
  | c :: d :: p =>
    by_cases hc : c = '.'
    · subst hc
      cases hd : d.isDigit with
      | false => simp [fractionSize, hd]
      | true =>
        simp only [List.cons_append, fractionSize, hd, if_true, List.length_cons] at h ⊢
        have hrun : countWhile isGrouped (d :: p ++ t') = countWhile isGrouped (d :: p ++ t) :=
          countWhile_front (by simp only [List.cons_append, List.length_cons]; omega)
            (ht.head_not rfl)
        simp only [List.cons_append] at hrun
        rw [hrun]
    · simp [fractionSize, hc]

/-- Whether an exponent has a sign depends on one character behind its letter. -/
theorem exponentSize_sign (e s : Char) : ∃ sign ≤ 1, ∀ cs,
    exponentSize (e :: s :: cs) =
      if e = 'e' ∨ e = 'E' then
        if countWhile Char.isDigit ((s :: cs).drop sign) = 0 then 0
        else 1 + sign + countWhile Char.isDigit ((s :: cs).drop sign)
      else 0 := by
  refine ⟨if s = '+' ∨ s = '-' then 1 else 0, by split <;> simp, fun cs => ?_⟩
  simp [exponentSize]

theorem exponentSize_front {p t t' : List Char} (ht : Stops t')
    (h : exponentSize (p ++ t) ≤ p.length) :
    exponentSize (p ++ t') = exponentSize (p ++ t) := by
  obtain ⟨-, -, hstop, hletter⟩ := number_stops ht
  match p with
  | [] =>
    have hzero : exponentSize t = 0 := by simpa using h
    simp only [List.nil_append]
    rw [hzero, hstop]
  | [e] =>
    -- an exponent takes a digit, so its letter alone is none
    have hzero : exponentSize (e :: t) = 0 := by
      simp only [List.cons_append, List.nil_append, exponentSize, List.length_cons,
        List.length_nil] at h ⊢
      grind
    exact (hletter e).trans hzero.symm
  | e :: s :: p =>
    obtain ⟨sign, hsign, heq⟩ := exponentSize_sign e s
    have hle : sign ≤ (s :: p).length := by simp only [List.length_cons]; omega
    have hdrop : ∀ t, (s :: (p ++ t)).drop sign = (s :: p).drop sign ++ t := by
      intro t
      exact List.drop_append_of_le_length hle
    simp only [List.cons_append, heq, hdrop] at h ⊢
    split
    · rename_i he
      have hrun : countWhile Char.isDigit ((s :: p).drop sign ++ t') =
          countWhile Char.isDigit ((s :: p).drop sign ++ t) := by
        refine countWhile_front ?_ (ht.head_not rfl)
        simp only [he, if_true, List.length_drop, List.length_cons] at h hle ⊢
        split at h <;> omega
      rw [hrun]
    · rfl

theorem decimalSize_front {p t t' : List Char} (ht : Stops t')
    (h : (decimalSize (p ++ t)).1 ≤ p.length) : decimalSize (p ++ t') = decimalSize (p ++ t) := by
  -- the parts of the number, each measured behind the ones before it
  obtain ⟨whole, hwhole⟩ : ∃ n, countWhile isGrouped (p ++ t) = n := ⟨_, rfl⟩
  obtain ⟨fraction, hfraction⟩ : ∃ n, fractionSize ((p ++ t).drop whole) = n := ⟨_, rfl⟩
  obtain ⟨exponent, hexponent⟩ : ∃ n, exponentSize ((p ++ t).drop (whole + fraction)) = n :=
    ⟨_, rfl⟩
  have hsum : whole + fraction + exponent ≤ p.length := by
    simp only [decimalSize, hwhole, hfraction, hexponent] at h
    grind
  have hdrop : ∀ {n}, n ≤ p.length → ∀ t, (p ++ t).drop n = p.drop n ++ t :=
    fun hn t => List.drop_append_of_le_length hn
  have hwhole' : countWhile isGrouped (p ++ t') = whole := by
    rw [← hwhole]
    exact countWhile_front (by omega) (ht.head_not rfl)
  have hfraction' : fractionSize ((p ++ t').drop whole) = fraction := by
    rw [hdrop (by omega)] at hfraction ⊢
    rw [← hfraction]
    exact fractionSize_front ht (by rw [hfraction, List.length_drop]; omega)
  have hexponent' : exponentSize ((p ++ t').drop (whole + fraction)) = exponent := by
    rw [hdrop (by omega)] at hexponent ⊢
    rw [← hexponent]
    exact exponentSize_front ht (by rw [hexponent, List.length_drop]; omega)
  -- what follows them: a letter that makes the number real, or a width
  simp only [decimalSize, hwhole, hfraction, hexponent, hwhole', hfraction', hexponent',
    hdrop hsum] at h ⊢
  have hlength : (p.drop (whole + fraction + exponent)).length =
      p.length - (whole + fraction + exponent) := List.length_drop
  generalize p.drop (whole + fraction + exponent) = rest at h hlength ⊢
  by_cases hreal : (rest ++ t).head?.any isRealSuffix
  · -- the letter is taken, so it lies in the front
    rw [if_pos hreal] at h ⊢
    have hrest : rest ≠ [] := by
      rintro rfl
      simp only [List.length_nil] at hlength
      omega
    rw [head_append (t := t) hrest, if_pos hreal]
  · have hreal' : ¬(rest ++ t').head?.any isRealSuffix = true :=
      fun h => hreal (ht.head_front rfl h).2
    rw [if_neg hreal] at h ⊢
    rw [if_neg hreal']
    have hwidth : countWhile isIntegerSuffix (rest ++ t') =
        countWhile isIntegerSuffix (rest ++ t) :=
      countWhile_front (by simp only at h; omega) (ht.head_not rfl)
    rw [hwidth]

/-- Letters behind a zero that change the base of a number. -/
def isBaseLetter (c : Char) : Bool := ['x', 'X', 'b', 'B'].contains c

theorem numberSize_cons (c : Char) (cs : List Char) :
    numberSize (c :: cs) =
      if c = '0' ∧ cs.head?.any isBaseLetter then
        let digits := countWhile isGroupedHex (cs.drop 1)
        (2 + digits + countWhile isIntegerSuffix ((cs.drop 1).drop digits), .integer)
      else decimalSize (c :: cs) := by
  have hsame : isBaseLetter = ['x', 'X', 'b', 'B'].contains := rfl
  rw [hsame]
  simp [numberSize, Nat.add_comm]

theorem numberSize_front {c : Char} {p t t' : List Char} (ht : Stops t')
    (h : (numberSize (c :: (p ++ t))).1 ≤ p.length + 1) :
    numberSize (c :: (p ++ t')) = numberSize (c :: (p ++ t)) := by
  rw [numberSize_cons] at h
  rw [numberSize_cons, numberSize_cons]
  by_cases hbase : c = '0' ∧ (p ++ t).head?.any isBaseLetter
  · rw [if_pos hbase] at h
    cases p with
    | nil => simp only [List.length_nil] at h; omega
    | cons x p =>
      -- behind the base come digits and then the width, both runs that end in `p`
      simp only [List.cons_append, List.head?_cons, List.drop_succ_cons, List.drop_zero,
        List.length_cons] at h hbase ⊢
      have hdigits : countWhile isGroupedHex (p ++ t') = countWhile isGroupedHex (p ++ t) :=
        countWhile_front (by omega) (ht.head_not rfl)
      rw [hdigits]
      generalize countWhile isGroupedHex (p ++ t) = digits at h ⊢
      have hle : digits ≤ p.length := by omega
      rw [List.drop_append_of_le_length hle] at h ⊢
      rw [List.drop_append_of_le_length hle]
      have hwidth : countWhile isIntegerSuffix (p.drop digits ++ t') =
          countWhile isIntegerSuffix (p.drop digits ++ t) :=
        countWhile_front (by rw [List.length_drop]; omega) (ht.head_not rfl)
      rw [hwidth, if_pos hbase, if_pos hbase]
  · rw [if_neg hbase] at h ⊢
    have hbase' : ¬(c = '0' ∧ (p ++ t').head?.any isBaseLetter) := by
      rintro ⟨hc, hany⟩
      exact hbase ⟨hc, (ht.head_front rfl hany).2⟩
    rw [if_neg hbase']
    exact decimalSize_front (p := c :: p) ht h

/-! ## Sizes -/

theorem fractionSize_le (cs : List Char) : fractionSize cs ≤ cs.length := by
  unfold fractionSize
  split
  · rename_i d ds
    have hrun := countWhile_le isGrouped (d :: ds)
    simp only [List.length_cons] at hrun ⊢
    split <;> omega
  · omega

theorem exponentSize_le (cs : List Char) : exponentSize cs ≤ cs.length := by
  match cs with
  | [] => simp [exponentSize]
  | [e] => simp [exponentSize]
  | e :: s :: cs =>
    obtain ⟨sign, hsign, heq⟩ := exponentSize_sign e s
    have hrun := countWhile_le Char.isDigit ((s :: cs).drop sign)
    rw [heq]
    simp only [List.length_drop, List.length_cons] at hrun ⊢
    split
    · split <;> omega
    · omega

theorem decimalSize_le (cs : List Char) : (decimalSize cs).1 ≤ cs.length := by
  have hwhole := countWhile_le isGrouped cs
  have hfraction := fractionSize_le (cs.drop (countWhile isGrouped cs))
  have hexponent := exponentSize_le
    (cs.drop (countWhile isGrouped cs + fractionSize (cs.drop (countWhile isGrouped cs))))
  simp only [decimalSize]
  -- only the sizes of the parts matter from here on
  generalize countWhile isGrouped cs = whole at *
  generalize fractionSize (cs.drop whole) = fraction at *
  generalize exponentSize (cs.drop (whole + fraction)) = exponent at *
  simp only [List.length_drop] at hfraction hexponent
  have hwidth := countWhile_le isIntegerSuffix (cs.drop (whole + fraction + exponent))
  rw [List.length_drop] at hwidth
  split
  · rename_i hreal
    have hrest : cs.drop (whole + fraction + exponent) ≠ [] := by
      intro hnil
      simp [hnil] at hreal
    have hlt := List.length_pos_iff.2 hrest
    rw [List.length_drop] at hlt
    simp only
    omega
  · simp only
    omega

theorem numberSize_le (c : Char) (cs : List Char) : (numberSize (c :: cs)).1 ≤ cs.length + 1 := by
  rw [numberSize_cons]
  split
  · rename_i hbase
    cases cs with
    | nil => simp at hbase
    | cons x cs =>
      have hdigits := countWhile_le isGroupedHex cs
      have hwidth := countWhile_le isIntegerSuffix (cs.drop (countWhile isGroupedHex cs))
      rw [List.length_drop] at hwidth
      simp only [List.drop_succ_cons, List.drop_zero, List.length_cons]
      omega
  · exact decimalSize_le (c :: cs)

theorem one_le_numberSize {c : Char} {cs : List Char} (h : c.isDigit) :
    1 ≤ (numberSize (c :: cs)).1 := by
  have hgrouped : isGrouped c = true := by simp [isGrouped, h]
  rw [numberSize_cons]
  split
  · simp only
    omega
  · simp only [decimalSize, countWhile_cons_pos cs hgrouped]
    split <;> simp only <;> omega

/-- A number that starts with a point takes the digit behind it. -/
theorem two_le_numberSize {cs : List Char} (h : cs.head?.any Char.isDigit) :
    2 ≤ (numberSize ('.' :: cs)).1 := by
  cases cs with
  | nil => simp at h
  | cons d cs =>
    have hd : d.isDigit = true := h
    have hgrouped : isGrouped d = true := by simp [isGrouped, hd]
    have hwhole : countWhile isGrouped ('.' :: d :: cs) = 0 := countWhile_cons_neg _ rfl
    have hfraction : 2 ≤ fractionSize ('.' :: d :: cs) := by
      simp only [fractionSize, hd, if_true, countWhile_cons_pos cs hgrouped]
      omega
    rw [numberSize_cons, if_neg (by simp)]
    simp only [decimalSize, hwhole, List.drop_zero]
    split <;> simp only <;> omega

/-! ## What numbers are made of -/

/-- Characters that a number may be made of. -/
def isNumberChar (c : Char) : Bool :=
  isGroupedHex c || isIntegerSuffix c || isRealSuffix c || isBaseLetter c ||
    ['.', 'e', 'E', '+', '-'].contains c

/-- The first `n` characters may stand in a number. -/
def NumberFront (n : Nat) (cs : List Char) : Prop := ∀ c ∈ cs.take n, isNumberChar c = true

theorem numberFront_zero (cs : List Char) : NumberFront 0 cs := List.forall_mem_nil _

theorem NumberFront.add {m n : Nat} {cs : List Char} (hm : NumberFront m cs)
    (hn : NumberFront n (cs.drop m)) : NumberFront (m + n) cs := by
  intro c hc
  rw [List.take_add] at hc
  exact (List.mem_append.1 hc).elim (hm c) (hn c)

theorem numberFront_countWhile {q : Char → Bool} (h : ∀ c, q c = true → isNumberChar c = true)
    (cs : List Char) : NumberFront (countWhile q cs) cs := by
  intro c hc
  have hrun : cs.take (countWhile q cs) = cs.takeWhile q :=
    (List.prefix_iff_eq_take.1 (List.takeWhile_prefix q)).symm
  rw [hrun] at hc
  exact h c (List.all_eq_true.1 List.all_takeWhile c hc)

theorem numberFront_cons {n : Nat} {c : Char} {cs : List Char} (hc : isNumberChar c = true)
    (h : NumberFront n cs) : NumberFront (n + 1) (c :: cs) :=
  List.forall_mem_cons.2 ⟨hc, h⟩

theorem isNumberChar_of_isGrouped (c : Char) (h : isGrouped c = true) : isNumberChar c = true := by
  simp only [isGrouped, Bool.or_eq_true] at h
  rcases h with h | h <;> simp [isNumberChar, isGroupedHex, h]

theorem isNumberChar_of_isDigit (c : Char) (h : c.isDigit = true) : isNumberChar c = true := by
  simp [isNumberChar, isGroupedHex, h]

theorem isNumberChar_of_isGroupedHex (c : Char) (h : isGroupedHex c = true) :
    isNumberChar c = true := by
  simp [isNumberChar, h]

theorem isNumberChar_of_isIntegerSuffix (c : Char) (h : isIntegerSuffix c = true) :
    isNumberChar c = true := by
  simp [isNumberChar, h]

theorem numberFront_fraction (cs : List Char) : NumberFront (fractionSize cs) cs := by
  unfold fractionSize
  split
  · rename_i d ds
    split
    · rw [Nat.add_comm]
      exact numberFront_cons rfl (numberFront_countWhile isNumberChar_of_isGrouped _)
    · exact numberFront_zero _
  · exact numberFront_zero _

theorem numberFront_sign (cs : List Char) :
    NumberFront (if cs.head? = some '+' || cs.head? = some '-' then 1 else 0) cs := by
  split
  · rename_i hsign
    cases cs with
    | nil => cases hsign
    | cons s cs =>
      refine numberFront_cons ?_ (numberFront_zero cs)
      simp only [List.head?_cons, Bool.or_eq_true, decide_eq_true_eq, Option.some.injEq] at hsign
      rcases hsign with rfl | rfl <;> rfl
  · exact numberFront_zero _

theorem numberFront_exponent (cs : List Char) : NumberFront (exponentSize cs) cs := by
  cases cs with
  | nil => exact numberFront_zero _
  | cons e cs =>
    by_cases he : (e = 'e' || e = 'E') = true
    · have hletter : isNumberChar e = true := by
        simp only [Bool.or_eq_true, decide_eq_true_eq] at he
        rcases he with rfl | rfl <;> rfl
      have hsign := numberFront_sign cs
      rw [exponentSize, if_pos he]
      dsimp only
      -- with a sign or without, digits have to follow
      revert hsign
      generalize (if cs.head? = some '+' || cs.head? = some '-' then 1 else 0) = sign
      intro hsign
      split
      · exact numberFront_zero _
      · rw [Nat.add_assoc, Nat.add_comm]
        refine numberFront_cons hletter (hsign.add ?_)
        exact numberFront_countWhile isNumberChar_of_isDigit _
    · rw [exponentSize, if_neg he]
      exact numberFront_zero _

theorem numberFront_decimal (cs : List Char) : NumberFront (decimalSize cs).1 cs := by
  have hbody : NumberFront (countWhile isGrouped cs +
      fractionSize (cs.drop (countWhile isGrouped cs)) +
      exponentSize (cs.drop (countWhile isGrouped cs +
        fractionSize (cs.drop (countWhile isGrouped cs))))) cs :=
    ((numberFront_countWhile isNumberChar_of_isGrouped cs).add (numberFront_fraction _)).add
      (numberFront_exponent _)
  unfold decimalSize
  dsimp only
  split
  · rename_i hsuffix
    refine hbody.add ?_
    revert hsuffix
    generalize List.drop _ cs = rest
    intro hsuffix
    cases rest with
    | nil => cases hsuffix
    | cons c rest =>
      refine numberFront_cons ?_ (numberFront_zero rest)
      simp [isNumberChar, show isRealSuffix c = true from hsuffix]
  · exact hbody.add (numberFront_countWhile isNumberChar_of_isIntegerSuffix _)

/-- A number is made of digits and of the letters, points and signs of numbers. -/
theorem numberFront_number (c : Char) (cs : List Char) :
    NumberFront (numberSize (c :: cs)).1 (c :: cs) := by
  rw [numberSize_cons]
  split
  · rename_i hbase
    obtain ⟨rfl, hletter⟩ := hbase
    cases cs with
    | nil => cases hletter
    | cons x cs =>
      have hx : isNumberChar x = true := by
        simp [isNumberChar, show isBaseLetter x = true from hletter]
      have hdigits := numberFront_countWhile isNumberChar_of_isGroupedHex cs
      have hrest := hdigits.add (numberFront_countWhile isNumberChar_of_isIntegerSuffix _)
      rw [List.drop_one, List.tail_cons]
      dsimp only
      rw [Nat.add_assoc, Nat.add_comm]
      exact numberFront_cons rfl (numberFront_cons hx hrest)
  · exact numberFront_decimal _

end GatewayPolicy
