import GatewayPolicy.Proofs.Lexical.Stretch
import GatewayPolicy.Proofs.Reading.Alignment

/-! # Texts with the same tokens

  Two lists of tokens that are equal in kind and text are aligned by their
  indices: the tokens at one index correspond, and places correspond when they
  reach from one index to another in both lists.

  - `touchesOf` lists which neighbours touch. Joining tokens depends on nothing
    else (`joinTokens_eq`).
  - `Alignment.ofTokens` is the alignment by indices. That places can be joined
    in both lists alike holds because tokens stand one after the other.
-/

namespace GatewayPolicy

/-! ## Neighbours -/

/-- For each token but the last, whether it touches the one behind it. -/
def touchesOf : List Token → List Bool
  | t :: u :: ts => t.touches u :: touchesOf (u :: ts)
  | _ => []

theorem touchesOf_drop (ts : List Token) (i : Nat) :
    touchesOf (ts.drop i) = (touchesOf ts).drop i := by
  induction ts generalizing i with
  | nil => simp [touchesOf]
  | cons t ts ih =>
    cases i with
    | zero => rfl
    | succ i =>
      rw [List.drop_succ_cons, ih]
      cases ts with
      | nil => simp [touchesOf]
      | cons u ts => rw [touchesOf, List.drop_succ_cons]

theorem touchesOf_take (ts : List Token) (k : Nat) :
    touchesOf (ts.take k) = (touchesOf ts).take (k - 1) := by
  induction ts generalizing k with
  | nil => simp [touchesOf]
  | cons t ts ih =>
    cases k with
    | zero => rfl
    | succ k =>
      cases ts with
      | nil => simp [touchesOf]
      | cons u ts =>
        cases k with
        | zero => simp [touchesOf]
        | succ k =>
          have htail := ih (k + 1)
          rw [List.take_succ_cons] at htail ⊢
          rw [List.take_succ_cons, touchesOf, htail, touchesOf]
          rfl

/-- A blank is written between tokens in order just when they do not touch. -/
theorem joinTokens_cons_cons {t u : Token} (h : t.Before u) (ts : List Token) :
    joinTokens none (t :: u :: ts) =
      t.text.toList ++ (if t.touches u then [] else [' ']) ++ joinTokens none (u :: ts) := by
  have hapart : t.span.stop < u.span.start ↔ ¬t.touches u = true := by
    have hle := h.apart
    rw [Token.touches, beq_iff_eq]
    omega
  by_cases htouch : t.touches u = true
  · simp [joinTokens, htouch, hapart]
  · simp [joinTokens, htouch, hapart]

/-- Joining depends on the texts of the tokens and on which of them touch. -/
theorem joinTokens_eq {ts ts' : List Token} (hfaces : ts.map Token.face = ts'.map Token.face)
    (htouches : touchesOf ts = touchesOf ts') (h : ts.Pairwise Token.Before)
    (h' : ts'.Pairwise Token.Before) : joinTokens none ts = joinTokens none ts' := by
  induction ts generalizing ts' with
  | nil =>
    rw [List.map_nil] at hfaces
    rw [List.map_eq_nil_iff.1 hfaces.symm]
  | cons t ts ih =>
    cases ts' with
    | nil => cases hfaces
    | cons t' ts' =>
      rw [List.map_cons, List.map_cons, List.cons.injEq] at hfaces
      obtain ⟨hface, hfaces⟩ := hfaces
      have htext : t.text = t'.text := congrArg Prod.snd hface
      cases ts with
      | nil =>
        rw [List.map_nil] at hfaces
        rw [List.map_eq_nil_iff.1 hfaces.symm, joinTokens, joinTokens, htext]
        rfl
      | cons u ts =>
        cases ts' with
        | nil => cases hfaces
        | cons u' ts' =>
          rw [List.pairwise_cons] at h h'
          rw [touchesOf, touchesOf, List.cons.injEq] at htouches
          rw [joinTokens_cons_cons (h.1 u List.mem_cons_self),
            joinTokens_cons_cons (h'.1 u' List.mem_cons_self), htext, htouches.1,
            ih hfaces htouches.2 h.2 h'.2]

/-- The same for a stretch of the tokens. -/
theorem joinTokens_stretch_eq {ts ts' : List Token}
    (hfaces : ts.map Token.face = ts'.map Token.face) (htouches : touchesOf ts = touchesOf ts')
    (h : ts.Pairwise Token.Before) (h' : ts'.Pairwise Token.Before) (i k : Nat) :
    joinTokens none ((ts.drop i).take k) = joinTokens none ((ts'.drop i).take k) := by
  have hsublist : ∀ us : List Token, ((us.drop i).take k).Sublist us :=
    fun us => (List.take_sublist _ _).trans (List.drop_sublist _ _)
  refine joinTokens_eq ?_ ?_ (h.sublist (hsublist ts)) (h'.sublist (hsublist ts'))
  · rw [List.map_take, List.map_take, List.map_drop, List.map_drop, hfaces]
  · rw [touchesOf_take, touchesOf_take, touchesOf_drop, touchesOf_drop, htouches]

/-! ## Tokens in order -/

section Order

variable {ts : List Token} {i k : Nat} {t u : Token}

theorem before_of_lt (h : ts.Pairwise Token.Before) (ht : ts[i]? = some t) (hu : ts[k]? = some u)
    (hik : i < k) : t.Before u := by
  obtain ⟨hi, rfl⟩ := List.getElem?_eq_some_iff.1 ht
  obtain ⟨hk, rfl⟩ := List.getElem?_eq_some_iff.1 hu
  exact List.pairwise_iff_getElem.1 h i k hi hk hik

theorem start_le_iff (h : ts.Pairwise Token.Before) (ht : ts[i]? = some t) (hu : ts[k]? = some u) :
    t.span.start ≤ u.span.start ↔ i ≤ k := by
  rcases Nat.lt_trichotomy i k with hik | rfl | hki
  · have hstart := (before_of_lt h ht hu hik).1
    omega
  · have htu : t = u := Option.some.inj (ht.symm.trans hu)
    rw [htu]
    omega
  · have hstart := (before_of_lt h hu ht hki).1
    omega

theorem stop_le_of_le (h : ts.Pairwise Token.Before) (ht : ts[i]? = some t) (hu : ts[k]? = some u)
    (hik : i ≤ k) : t.span.stop ≤ u.span.stop := by
  rcases Nat.lt_or_eq_of_le hik with hlt | rfl
  · exact (before_of_lt h ht hu hlt).2
  · have htu : t = u := Option.some.inj (ht.symm.trans hu)
    rw [htu]

theorem cover_of_le (h : ts.Pairwise Token.Before) (ht : ts[i]? = some t) (hu : ts[k]? = some u)
    (hik : i ≤ k) : (t.span.cover u.span).start = t.span.start ∧
      (t.span.cover u.span).stop = u.span.stop := by
  have hstart := (start_le_iff h ht hu).2 hik
  have hstop := stop_le_of_le h ht hu hik
  rw [Span.cover_start, Span.cover_stop]
  omega

end Order

/-- A place that reaches from the token at one index to the token at another. -/
def IsStretch (ts : List Token) (i j : Nat) (s : Span) : Prop :=
  i ≤ j ∧ ∃ t u, ts[i]? = some t ∧ ts[j]? = some u ∧ s = { t.span with stop := u.span.stop }

theorem isStretch_token {ts : List Token} {i : Nat} {t : Token} (h : ts[i]? = some t) :
    IsStretch ts i i t.span :=
  ⟨Nat.le_refl i, t, t, h, h, rfl⟩

/-- Two stretches are covered by the stretch from the first start to the last stop. -/
theorem IsStretch.cover {ts : List Token} (h : ts.Pairwise Token.Before) {i j k l : Nat}
    {r s : Span} (hr : IsStretch ts i j r) (hs : IsStretch ts k l s) :
    IsStretch ts (min i k) (max j l) (r.cover s) := by
  obtain ⟨hij, t, u, ht, hu, rfl⟩ := hr
  obtain ⟨hkl, v, w, hv, hw, rfl⟩ := hs
  refine ⟨by omega, ?_⟩
  -- the token that stops last
  obtain ⟨z, hz, hstop⟩ : ∃ z, ts[max j l]? = some z ∧
      z.span.stop = max u.span.stop w.span.stop := by
    rcases Nat.le_total j l with hjl | hlj
    · have hle := stop_le_of_le h hu hw hjl
      rw [Nat.max_eq_right hjl]
      exact ⟨w, hw, by omega⟩
    · have hle := stop_le_of_le h hw hu hlj
      rw [Nat.max_eq_left hlj]
      exact ⟨u, hu, by omega⟩
  -- tokens start in the order of their indices
  have hfirst := start_le_iff h ht hv
  by_cases hik : i ≤ k
  · refine ⟨t, z, ?_, hz, ?_⟩
    · rw [Nat.min_eq_left hik]
      exact ht
    · rw [Span.cover, if_pos (hfirst.2 hik), hstop]
  · refine ⟨v, z, ?_, hz, ?_⟩
    · rw [Nat.min_eq_right (by omega)]
      exact hv
    · rw [Span.cover, if_neg fun hle => hik (hfirst.1 hle), hstop]

/-! ## The alignment by indices -/

theorem face_eq_of_getElem? {ts ts' : List Token} (h : ts.map Token.face = ts'.map Token.face)
    {i : Nat} {t t' : Token} (ht : ts[i]? = some t) (ht' : ts'[i]? = some t') :
    t.face = t'.face := by
  have hface := congrArg (·[i]?) h
  simpa [ht, ht'] using hface

/-- Places that reach from the same index to the same index. -/
def SameStretch (ts ts' : List Token) (s s' : Span) : Prop :=
  ∃ i j, IsStretch ts i j s ∧ IsStretch ts' i j s'

theorem SameStretch.cover {ts ts' : List Token} (h : ts.Pairwise Token.Before)
    (h' : ts'.Pairwise Token.Before) {r r' s s' : Span} (hr : SameStretch ts ts' r r')
    (hs : SameStretch ts ts' s s') : SameStretch ts ts' (r.cover s) (r'.cover s') := by
  obtain ⟨i, j, hr, hr'⟩ := hr
  obtain ⟨k, l, hs, hs'⟩ := hs
  exact ⟨min i k, max j l, hr.cover h hs, hr'.cover h' hs'⟩

/-- Tokens correspond at one index, places from one index to another. -/
def Alignment.ofTokens (ts ts' : List Token) (hfaces : ts.map Token.face = ts'.map Token.face)
    (h : ts.Pairwise Token.Before) (h' : ts'.Pairwise Token.Before) : Alignment where
  token t t' := ∃ i : Nat, ts[i]? = some t ∧ ts'[i]? = some t'
  place := SameStretch ts ts'
  span := SameStretch ts ts'
  kind_eq := by
    rintro t t' ⟨i, ht, ht'⟩
    exact congrArg Prod.fst (face_eq_of_getElem? hfaces ht ht')
  text_eq := by
    rintro t t' ⟨i, ht, ht'⟩
    exact congrArg Prod.snd (face_eq_of_getElem? hfaces ht ht')
  place_of := by
    rintro t t' ⟨i, ht, ht'⟩
    exact ⟨i, i, isStretch_token ht, isStretch_token ht'⟩
  span_of := by
    rintro t t' ⟨i, ht, ht'⟩ _
    exact ⟨i, i, isStretch_token ht, isStretch_token ht'⟩
  place_span hs := hs
  cover := SameStretch.cover h h'

/-- Lists whose tokens are aligned one by one, with the same neighbours touching. -/
theorem Alignment.runs_of_touches {a : Alignment} {ts ts' : List Token}
    (hinside : ∀ t ∈ ts, t.isEof = false) (hlength : ts.length = ts'.length)
    (htouches : touchesOf ts = touchesOf ts')
    (h : ∀ (i : Nat) (t t' : Token), ts[i]? = some t → ts'[i]? = some t' → a.token t t') :
    a.Runs ts ts' := by
  induction ts generalizing ts' with
  | nil =>
    rw [List.length_nil] at hlength
    rw [List.length_eq_zero_iff.1 hlength.symm]
    exact .nil
  | cons t ts ih =>
    cases ts' with
    | nil => cases hlength
    | cons t' ts' =>
      have htail : touchesOf ts = touchesOf ts' := by
        have hdrop := congrArg (List.drop 1) htouches
        rw [← touchesOf_drop, ← touchesOf_drop] at hdrop
        exact hdrop
      obtain ⟨hhead, hinside⟩ := List.forall_mem_cons.mp hinside
      have hruns := ih hinside (Nat.succ.inj hlength) htail fun i => h (i + 1)
      refine .cons (h 0 t t' rfl rfl) hhead ?_ hruns
      intro u hu u' hu'
      -- whether the first two touch is the first entry of both lists
      cases ts with
      | nil => cases hu
      | cons v ts =>
        cases ts' with
        | nil => cases hu'
        | cons v' ts' =>
          cases hu
          cases hu'
          rw [touchesOf, touchesOf, List.cons.injEq] at htouches
          have hhead := htouches.1
          rw [Token.touches, Token.touches, Bool.eq_iff_iff, beq_iff_eq, beq_iff_eq] at hhead
          exact hhead

end GatewayPolicy
