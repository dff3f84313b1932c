import GatewayPolicy.Authoring.Piece

/-! # What comments and literals look at

  A scanner looks beyond the characters that it takes: a verbatim string asks
  whether a second quote follows its quote. What lies beyond does not matter as
  long as it cannot be taken.

  - `Stops` are the texts that no token reaches into: the end, and a blank.
  - Each scanner has a lemma `_bounds` (an extent that ends well lies in the
    text) and a lemma `_front` (one that lies in `p` is the same in front of any
    text that stops).
-/

namespace GatewayPolicy

open Text

/-- Texts that no token in front of them reaches into. -/
def Stops : List Char → Prop
  | [] => True
  | c :: _ => c = ' '

/-! ## Runs of characters -/

theorem countWhile_le (q : Char → Bool) (cs : List Char) : countWhile q cs ≤ cs.length :=
  (List.takeWhile_sublist q).length_le

@[simp] theorem countWhile_nil (q : Char → Bool) : countWhile q [] = 0 := rfl

theorem countWhile_cons_pos {q : Char → Bool} {c : Char} (cs : List Char) (h : q c) :
    countWhile q (c :: cs) = countWhile q cs + 1 := by
  simp [countWhile, h]

theorem countWhile_cons_neg {q : Char → Bool} {c : Char} (cs : List Char) (h : q c = false) :
    countWhile q (c :: cs) = 0 := by
  simp [countWhile, h]

/-- A run that ends inside `p`, or at its end, is the same in front of any text
    that does not go on with it. -/
theorem countWhile_front {q : Char → Bool} {p t t' : List Char}
    (h : countWhile q (p ++ t) ≤ p.length) (ht : ∀ c ∈ t'.head?, q c = false) :
    countWhile q (p ++ t') = countWhile q (p ++ t) := by
  induction p with
  | nil =>
    have h0 : countWhile q t = 0 := by simpa using h
    cases t' with
    | nil => simp [h0]
    | cons d ds =>
      have hd : q d = false := ht d (by simp)
      simpa [h0] using countWhile_cons_neg ds hd
  | cons c cs ih =>
    cases hc : q c with
    | false =>
      simp only [List.cons_append]
      rw [countWhile_cons_neg _ hc, countWhile_cons_neg _ hc]
    | true =>
      simp only [List.cons_append, List.length_cons] at h ⊢
      rw [countWhile_cons_pos _ hc] at h
      rw [countWhile_cons_pos _ hc, countWhile_cons_pos _ hc, ih (by omega)]

/-- A class of characters without the blank ends at a text that stops. -/
theorem Stops.head_not {t : List Char} (ht : Stops t) {q : Char → Bool} (hq : q ' ' = false) :
    ∀ c ∈ t.head?, q c = false := by
  intro c hc
  cases t with
  | nil => simp at hc
  | cons d ds =>
    have hd : d = ' ' := ht
    have hcd : d = c := by simpa using hc
    rw [← hcd, hd]
    exact hq

/-- What stands behind `p` is not asked for in a text that stops. -/
theorem Stops.head_front {q : Char → Bool} {p t t' : List Char} (ht : Stops t') (hq : q ' ' = false)
    (h : (p ++ t').head?.any q) : p ≠ [] ∧ (p ++ t).head?.any q := by
  cases p with
  | cons c cs => exact ⟨by simp, h⟩
  | nil =>
    have hstop := ht.head_not hq
    cases t' with
    | nil => simp at h
    | cons d ds =>
      have hd : q d = true := h
      simp [hstop d rfl] at hd

theorem head_append {p t t' : List Char} (hp : p ≠ []) : (p ++ t').head? = (p ++ t).head? := by
  cases p with
  | nil => exact absurd rfl hp
  | cons c cs => rfl

/-! ## Comments and literals -/

/-- The extent ends well inside `n` characters. -/
def Extent.Ends (e : Extent) (n : Nat) : Prop := e.fault = none ∧ e.size ≤ n

theorem Extent.ends_after {e : Extent} {k n : Nat} (h : (e.after k).Ends (n + k)) : e.Ends n := by
  obtain ⟨hfault, hsize⟩ := h
  rw [Extent.after_size] at hsize
  exact ⟨hfault, by omega⟩

theorem Extent.ite_front {b : Prop} [Decidable b] {e e' f f' : Extent} {n : Nat}
    (h : (if b then e else f).Ends n) (he : e.Ends n → e' = e) (hf : f.Ends n → f' = f) :
    (if b then e' else f') = if b then e else f := by
  split <;> simp_all

/-- A literal that ends well takes a character at least, and none beyond the text. -/
theorem quotedExtent_bounds {close : Char} {fault : LexicalFault} {cs : List Char}
    (h : (quotedExtent close fault cs).fault = none) :
    1 ≤ (quotedExtent close fault cs).size ∧ (quotedExtent close fault cs).size ≤ cs.length := by
  fun_induction quotedExtent close fault cs <;> grind [Extent.after_size, Extent.after_fault]

theorem quotedExtent_front {close : Char} {fault : LexicalFault} (hclose : close ≠ '\\')
    {t t' : List Char} : ∀ {p : List Char}, (quotedExtent close fault (p ++ t)).Ends p.length →
      quotedExtent close fault (p ++ t') = quotedExtent close fault (p ++ t)
  | [], ⟨hfault, hsize⟩ => by
    have hbounds := quotedExtent_bounds hfault
    simp only [List.length_nil] at hsize
    omega
  | [c], ⟨hfault, hsize⟩ => by
    -- one character is enough only if it is the closing quote
    have hlast : c = close := by
      cases t with
      | nil => grind [quotedExtent]
      | cons d ds =>
        have := @quotedExtent_bounds close fault (d :: ds)
        have := @quotedExtent_bounds close fault ds
        grind [quotedExtent, Extent.after_size, Extent.after_fault]
    subst hlast
    have hone : ∀ ds, quotedExtent c fault (c :: ds) = { size := 1 } := by
      intro ds
      cases ds <;> simp [quotedExtent, hclose]
    simp [hone]
  | c :: d :: p, h => by
    -- an escape takes two characters, anything else takes one
    have hskip := @quotedExtent_front close fault hclose t t' p
    have hnext := @quotedExtent_front close fault hclose t t' (d :: p)
    simp only [List.cons_append, quotedExtent] at h hnext ⊢
    refine Extent.ite_front h (fun h => by rw [hskip (Extent.ends_after h)]) fun h => ?_
    refine Extent.ite_front h (fun _ => rfl) fun h => ?_
    exact Extent.ite_front h (fun _ => rfl) fun h => by rw [hnext (Extent.ends_after h)]

theorem verbatimExtent_bounds {cs : List Char} (h : (verbatimExtent cs).fault = none) :
    1 ≤ (verbatimExtent cs).size ∧ (verbatimExtent cs).size ≤ cs.length := by
  fun_induction verbatimExtent cs <;> grind [Extent.after_size, Extent.after_fault]

theorem verbatimExtent_front {t t' : List Char} (ht : Stops t') :
    ∀ {p : List Char}, (verbatimExtent (p ++ t)).Ends p.length →
      verbatimExtent (p ++ t') = verbatimExtent (p ++ t)
  | [], ⟨hfault, hsize⟩ => by
    have hbounds := verbatimExtent_bounds hfault
    simp only [List.length_nil] at hsize
    omega
  | [c], ⟨hfault, hsize⟩ => by
    have hone : verbatimExtent (c :: t) = { size := 1 } ∧ c = '"' := by
      cases t with
      | nil => grind [verbatimExtent]
      | cons d ds =>
        have hrest := @verbatimExtent_bounds ds
        have hnext := @verbatimExtent_bounds (d :: ds)
        grind [verbatimExtent, Extent.after_size, Extent.after_fault]
    obtain ⟨hone, rfl⟩ := hone
    -- the quote is not doubled, because a text that stops does not go on with one
    have hstop : verbatimExtent ('"' :: t') = { size := 1 } := by
      cases t' with
      | nil => rfl
      | cons d ds =>
        have hd : d = ' ' := ht
        simp [verbatimExtent, hd]
    simp [hone, hstop]
  | c :: d :: p, h => by
    -- a doubled quote takes two characters, anything else takes one
    have hskip := @verbatimExtent_front t t' ht p
    have hnext := @verbatimExtent_front t t' ht (d :: p)
    simp only [List.cons_append, verbatimExtent] at h hnext ⊢
    refine Extent.ite_front h (fun h => ?_) fun h => by rw [hnext (Extent.ends_after h)]
    exact Extent.ite_front h (fun h => by rw [hskip (Extent.ends_after h)]) fun _ => rfl

theorem commentExtent_bounds {cs : List Char} (h : (commentExtent cs).fault = none) :
    2 ≤ (commentExtent cs).size ∧ (commentExtent cs).size ≤ cs.length := by
  fun_induction commentExtent cs <;>
    grind [Extent.after_size, Extent.after_fault, List.head?_eq_some_iff]

theorem commentExtent_front {p t : List Char} (h : (commentExtent (p ++ t)).Ends p.length)
    (t' : List Char) : commentExtent (p ++ t') = commentExtent (p ++ t) := by
  induction p with
  | nil =>
    have hbounds := commentExtent_bounds h.1
    have hsize := h.2
    simp only [List.length_nil] at hsize
    omega
  | cons c p ih =>
    cases p with
    | nil =>
      -- the star and the stroke do not fit into one character
      have hbounds := commentExtent_bounds h.1
      have hsize := h.2
      simp only [List.length_cons, List.length_nil] at hsize
      omega
    | cons d p =>
      simp only [List.cons_append, commentExtent, List.head?_cons] at h ih ⊢
      exact Extent.ite_front h (fun _ => rfl) fun h => by rw [ih (Extent.ends_after h)]

theorem interpolatedExtent_bounds {v : Bool} {s : Interpolation} {cs : List Char}
    (h : (interpolatedExtent v s cs).fault = none) :
    1 ≤ (interpolatedExtent v s cs).size ∧ (interpolatedExtent v s cs).size ≤ cs.length := by
  fun_induction interpolatedExtent v s cs <;> grind [Extent.after_size, Extent.after_fault]

/-- An interpolated string that takes one character more ends with a quote, and
    the quote is not doubled where it could be. -/
theorem interpolatedExtent_one {v : Bool} {s : Interpolation} {c : Char} {t : List Char}
    (h : (interpolatedExtent v s (c :: t)).Ends 1) :
    s = .text ∧ c = '"' ∧ interpolatedExtent v s (c :: t) = { size := 1 } := by
  obtain ⟨hfault, hsize⟩ := h
  have hrest := fun s => @interpolatedExtent_bounds v s t
  have htail := fun s => @interpolatedExtent_bounds v s t.tail
  cases s with
  | text => cases t <;> grind [interpolatedExtent, Extent.after_size, Extent.after_fault]
  | hole depth => cases depth <;> grind [interpolatedExtent, Extent.after_size, Extent.after_fault]
  | literal depth close =>
    cases t <;> grind [interpolatedExtent, Extent.after_size, Extent.after_fault]

theorem interpolatedExtent_front {v : Bool} {t t' : List Char} (ht : Stops t') :
    ∀ {p : List Char} {s : Interpolation}, (interpolatedExtent v s (p ++ t)).Ends p.length →
      interpolatedExtent v s (p ++ t') = interpolatedExtent v s (p ++ t)
  | [], s, ⟨hfault, hsize⟩ => by
    have hbounds := interpolatedExtent_bounds hfault
    simp only [List.length_nil] at hsize
    omega
  | [c], s, h => by
    obtain ⟨rfl, rfl, hone⟩ := interpolatedExtent_one h
    have hstop : interpolatedExtent v .text ('"' :: t') = { size := 1 } := by
      cases t' with
      | nil => simp [interpolatedExtent]
      | cons d ds =>
        have hd : d = ' ' := ht
        simp [interpolatedExtent, hd]
    exact hstop.trans hone.symm
  | c :: d :: p, s, h => by
    have hskip := fun s => @interpolatedExtent_front v t t' ht p s
    have hnext := fun s => @interpolatedExtent_front v t t' ht (d :: p) s
    simp only [List.cons_append] at h hnext ⊢
    -- each step takes one or two characters and goes on in a state that depends on them only
    cases s with
    | text =>
      unfold interpolatedExtent at h ⊢
      refine Extent.ite_front h
        (fun h => congrArg (Extent.after 2) (hskip _ (Extent.ends_after h))) fun h => ?_
      refine Extent.ite_front h (fun h => congrArg _ (hnext _ (Extent.ends_after h))) fun h => ?_
      refine Extent.ite_front h (fun _ => rfl) fun h => ?_
      exact Extent.ite_front h (fun _ => rfl) fun h => congrArg _ (hnext _ (Extent.ends_after h))
    | hole depth =>
      cases depth <;> simp only [interpolatedExtent] at h ⊢ <;>
        rw [hnext _ (Extent.ends_after h)]
    | literal depth close =>
      unfold interpolatedExtent at h ⊢
      refine Extent.ite_front h
        (fun h => congrArg (Extent.after 2) (hskip _ (Extent.ends_after h))) fun h => ?_
      refine Extent.ite_front h (fun h => congrArg _ (hnext _ (Extent.ends_after h))) fun h => ?_
      exact Extent.ite_front h (fun _ => rfl) fun h => congrArg _ (hnext _ (Extent.ends_after h))

end GatewayPolicy
