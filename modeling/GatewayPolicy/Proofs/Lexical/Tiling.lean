import GatewayPolicy.Proofs.Lexical.Piece

/-! # Pieces tile their text

  Cutting a text gives a list of pieces whose characters, joined, are the text
  again. Which lists of pieces come from a cut can be said without cutting:
  each piece has to be what is measured in front of the ones behind it.

  - `Tiles ps rest`: the pieces `ps` are cut off in front of `rest`.
  - `cut_eq_iff`: a text is cut into `ps` without a fault just when it is joined
    from `ps` and `ps` tiles.
  - `Tiles.truncate`: pieces that tile in front of a text tile alone, so a text
    may be sliced between pieces.
-/

namespace GatewayPolicy

/-- The characters of some pieces, joined. -/
def joined (ps : List Piece) : List Char := ps.flatMap Piece.chars

@[simp] theorem joined_nil : joined [] = [] := rfl

@[simp] theorem joined_cons (p : Piece) (ps : List Piece) :
    joined (p :: ps) = p.chars ++ joined ps := rfl

@[simp] theorem joined_append (ps qs : List Piece) :
    joined (ps ++ qs) = joined ps ++ joined qs := by
  simp [joined]

/-- The piece is what is measured in front of `rest`. -/
def Piece.Leads (p : Piece) (rest : List Char) : Prop :=
  ∃ c cs, p.chars = c :: cs ∧ measure c (cs ++ rest) = (p.kind, { size := cs.length + 1 })

/-- Each of the pieces is what is measured in front of those behind it and `rest`. -/
def Tiles : List Piece → List Char → Prop
  | [], _ => True
  | p :: ps, rest => p.Leads (joined ps ++ rest) ∧ Tiles ps rest

/-! ## Parts of a tiling -/

theorem tiles_append {ps qs : List Piece} {rest : List Char} :
    Tiles (ps ++ qs) rest ↔ Tiles ps (joined qs ++ rest) ∧ Tiles qs rest := by
  induction ps with
  | nil => simp [Tiles]
  | cons p ps ih => simp [Tiles, ih, and_assoc]

/-- A piece that is measured in front of a text is measured in front of less. -/
theorem Piece.Leads.truncate {p : Piece} {u rest : List Char} (h : p.Leads (u ++ rest)) :
    p.Leads u := by
  obtain ⟨c, cs, hchars, hmeasure⟩ := h
  rw [← List.append_assoc] at hmeasure
  refine ⟨c, cs, hchars, ?_⟩
  have hends : (measure c (cs ++ u ++ rest)).2.Ends ((cs ++ u).length + 1) := by
    rw [hmeasure]
    exact ⟨rfl, by simp⟩
  rw [measure_truncate hends, hmeasure]

theorem Tiles.truncate {ps : List Piece} {rest : List Char} (h : Tiles ps rest) : Tiles ps [] := by
  induction ps with
  | nil => trivial
  | cons p ps ih =>
    refine ⟨?_, ih h.2⟩
    rw [List.append_nil]
    exact h.1.truncate

/-- A stretch of a tiling tiles alone. -/
theorem Tiles.slice {ps qs rs : List Piece} (h : Tiles (ps ++ qs ++ rs) []) : Tiles qs [] := by
  have hfront := (tiles_append.1 h).1
  exact (tiles_append.1 hfront).2.truncate

/-- A token that is measured in front of a text is measured in front of any
    other text that goes on with the same characters and then stops. -/
theorem Piece.Leads.front {p : Piece} {u t t' : List Char} (h : p.Leads (u ++ t))
    (htoken : p.kind ≠ none) (ht : Stops t') : p.Leads (u ++ t') := by
  obtain ⟨c, cs, hchars, hmeasure⟩ := h
  refine ⟨c, cs, hchars, ?_⟩
  rw [← List.append_assoc] at hmeasure ⊢
  have hends : (measure c (cs ++ u ++ t)).2.Ends ((cs ++ u).length + 1) := by
    rw [hmeasure]
    exact ⟨rfl, by simp⟩
  rw [measure_front ht (by rw [hmeasure]; exact htoken) hends, hmeasure]

/-! ## Cutting -/

/-- Characters that belong to a piece already taken are passed over. -/
theorem cutAfter_eq_drop (n : Nat) (cs : List Char) : cutAfter n cs = cutAfter 0 (cs.drop n) := by
  induction n generalizing cs with
  | zero => rfl
  | succ n ih =>
    cases cs with
    | nil => simp [cutAfter]
    | cons c cs => rw [cutAfter, ih, List.drop_succ_cons]

/-- Cutting off a piece that is measured in front of `rest`. -/
theorem cutAfter_leads {p : Piece} {rest : List Char} (h : p.Leads rest) :
    cutAfter 0 (p.chars ++ rest) = (cutAfter 0 rest).push p := by
  obtain ⟨c, cs, hchars, hmeasure⟩ := h
  have htake : (c :: (cs ++ rest)).take (cs.length + 1) = p.chars := by
    simp [hchars]
  rw [hchars, List.cons_append, cutAfter, hmeasure]
  simp only [htake, Nat.add_sub_cancel]
  rw [cutAfter_eq_drop]
  simp

/-- Pieces that tile in front of `rest` are cut off first. -/
theorem cutAfter_tiles {ps : List Piece} {rest : List Char} (h : Tiles ps rest) :
    cutAfter 0 (joined ps ++ rest) =
      { pieces := ps ++ (cutAfter 0 rest).pieces, broken := (cutAfter 0 rest).broken } := by
  induction ps with
  | nil => simp
  | cons p ps ih =>
    rw [joined_cons, List.append_assoc, cutAfter_leads h.1, ih h.2]
    rfl

/-- A cut without a fault gives pieces that tile, and all of the text. -/
theorem tiles_of_cutAfter {cs : List Char} (h : (cutAfter 0 cs).broken = none) :
    joined (cutAfter 0 cs).pieces = cs ∧ Tiles (cutAfter 0 cs).pieces [] := by
  -- by induction on the length, because a piece may take many characters
  induction hn : cs.length using Nat.strongRecOn generalizing cs with
  | _ n ih =>
    cases cs with
    | nil => simp [cutAfter, Tiles]
    | cons c cs =>
      obtain ⟨kind, extent, hmeasure⟩ : ∃ kind extent, measure c cs = (kind, extent) := ⟨_, _, rfl⟩
      rw [cutAfter, hmeasure] at h ⊢
      cases hfault : extent.fault with
      | some fault => simp [hfault] at h
      | none =>
        have hbounds : 1 ≤ extent.size ∧ extent.size ≤ cs.length + 1 := by
          have := @measure_bounds c cs
          rw [hmeasure] at this
          exact this hfault
        -- the piece takes `c` and `k` characters behind it, the rest is cut by induction
        obtain ⟨k, hk⟩ : ∃ k, extent.size = k + 1 := ⟨extent.size - 1, by omega⟩
        simp only [hfault, hk, Nat.add_sub_cancel, List.take_succ_cons] at h ⊢
        rw [cutAfter_eq_drop] at h ⊢
        obtain ⟨hjoined, htiles⟩ := ih (cs.drop k).length
          (by rw [← hn, List.length_drop, List.length_cons]; omega) h rfl
        have htaken : (cs.take k).length = k := by
          rw [List.length_take]
          omega
        refine ⟨?_, ⟨c, cs.take k, rfl, ?_⟩, htiles⟩
        · show c :: cs.take k ++ joined (cutAfter 0 (cs.drop k)).pieces = c :: cs
          rw [hjoined, List.cons_append, List.take_append_drop]
        · rw [List.append_nil, hjoined, List.take_append_drop, hmeasure, htaken, ← hk, ← hfault]

/-- A text is cut into pieces without a fault just when it is joined from them
    and they tile. -/
theorem cut_eq_iff {text : String} {ps : List Piece} :
    cut text = { pieces := ps } ↔ text.toList = joined ps ∧ Tiles ps [] := by
  constructor
  · intro h
    have hcut : cutAfter 0 text.toList = { pieces := ps } := h
    obtain ⟨hjoined, htiles⟩ := @tiles_of_cutAfter text.toList (by rw [hcut])
    rw [hcut] at hjoined htiles
    exact ⟨hjoined.symm, htiles⟩
  · rintro ⟨htext, htiles⟩
    have hcut := cutAfter_tiles htiles
    rw [List.append_nil] at hcut
    rw [cut, htext, hcut]
    simp [cutAfter]

end GatewayPolicy
