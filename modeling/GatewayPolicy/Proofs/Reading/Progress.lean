import GatewayPolicy.Authoring.Unit
import GatewayPolicy.Proofs.Reading.Statement

/-! # Reading goes forward

  A parse takes tokens from the front and never puts one back, whatever it tries
  on the way: an attempt that is given up starts again where it began.

  - `Cursor.Takes` says which tokens lie between two cursors.
  - `Parse.Forward` are the parses that only take tokens, `Parse.Strict` those that
    take at least one, and `Parse.Finishes` those whose result fits the cursor they
    leave. Each is a class, so that a production has it because its parts do.
-/

namespace GatewayPolicy

/-! ## Tokens between cursors -/

/-- The tokens `taken` lie between two cursors. -/
structure Cursor.Takes (c : Cursor) (taken : List Token) (d : Cursor) : Prop where
  rest : c.rest = taken ++ d.rest
  last : d.last = (taken.getLast?.map (·.span)).getD c.last
  stop : d.stop = c.stop

/-- A cursor that stands behind another, or at the same place. -/
def Cursor.Reaches (c d : Cursor) : Prop := ∃ taken, c.Takes taken d

/-- A cursor that stands behind another. -/
def Cursor.Passes (c d : Cursor) : Prop := ∃ taken, taken ≠ [] ∧ c.Takes taken d

namespace Cursor

variable {c d e : Cursor}

theorem takes_nil (c : Cursor) : c.Takes [] c := ⟨rfl, rfl, rfl⟩

theorem Takes.eq_of_nil (h : c.Takes [] d) : d = c := by
  obtain ⟨last, rest, stop⟩ := c
  obtain ⟨last', rest', stop'⟩ := d
  obtain ⟨hrest, hlast, hstop⟩ := h
  simp_all

theorem Takes.append {xs ys : List Token} (h : c.Takes xs d) (h' : d.Takes ys e) :
    c.Takes (xs ++ ys) e := by
  refine ⟨?_, ?_, h'.stop.trans h.stop⟩
  · rw [h.rest, h'.rest, List.append_assoc]
  · rw [h'.last, h.last, List.getLast?_append]
    cases ys.getLast? with
    | none => rfl
    | some y => rfl

theorem Reaches.refl (c : Cursor) : c.Reaches c := ⟨[], takes_nil c⟩

theorem Reaches.trans (h : c.Reaches d) (h' : d.Reaches e) : c.Reaches e := by
  obtain ⟨xs, hxs⟩ := h
  obtain ⟨ys, hys⟩ := h'
  exact ⟨_, hxs.append hys⟩

theorem Passes.reaches (h : c.Passes d) : c.Reaches d := by
  obtain ⟨taken, -, h⟩ := h
  exact ⟨taken, h⟩

theorem Passes.trans_reaches (h : c.Passes d) (h' : d.Reaches e) : c.Passes e := by
  obtain ⟨xs, hne, hxs⟩ := h
  obtain ⟨ys, hys⟩ := h'
  exact ⟨_, List.append_ne_nil_of_left_ne_nil hne ys, hxs.append hys⟩

theorem Reaches.trans_passes (h : c.Reaches d) (h' : d.Passes e) : c.Passes e := by
  obtain ⟨xs, hxs⟩ := h
  obtain ⟨ys, hne, hys⟩ := h'
  exact ⟨_, List.append_ne_nil_of_right_ne_nil xs hne, hxs.append hys⟩

/-- A cursor that does not stand behind another is the same. -/
theorem Reaches.eq_or_passes (h : c.Reaches d) : d = c ∨ c.Passes d := by
  obtain ⟨taken, h⟩ := h
  by_cases hnil : taken = []
  · subst hnil
    exact .inl h.eq_of_nil
  · exact .inr ⟨taken, hnil, h⟩

theorem Passes.length_lt (h : c.Passes d) : d.rest.length < c.rest.length := by
  obtain ⟨taken, hne, h⟩ := h
  have hpos := List.length_pos_of_ne_nil hne
  rw [h.rest, List.length_append]
  omega

/-- The end of the file is the only token that is never taken. -/
theorem takes_next (h : c.peek.isEof = false) : c.Takes [c.peek] c.next := by
  obtain ⟨last, rest, stop⟩ := c
  cases rest with
  | nil => cases h
  | cons t ts => exact ⟨rfl, rfl, rfl⟩

theorem next_eq (h : c.peek.isEof = false) : c.next = ⟨c.peek.span, c.next.rest, c.stop⟩ := by
  obtain ⟨last, rest, stop⟩ := c
  cases rest with
  | nil => cases h
  | cons t ts => rfl

/-- The token behind the next one. -/
theorem peek_next (c : Cursor) : c.next.peek = c.peekAt 1 := by
  obtain ⟨last, rest, stop⟩ := c
  cases rest with
  | nil => rfl
  | cons t ts => cases ts <;> rfl

theorem passes_next (h : c.peek.isEof = false) : c.Passes c.next :=
  ⟨_, List.cons_ne_nil _ _, takes_next h⟩

theorem reaches_next (c : Cursor) : c.Reaches c.next := by
  obtain ⟨last, rest, stop⟩ := c
  cases rest with
  | nil => exact Reaches.refl _
  | cons t ts => exact ⟨[t], rfl, rfl, rfl⟩

theorem reaches_skipWhile (c : Cursor) (p : Token → Bool) : c.Reaches (c.skipWhile p) :=
  ⟨c.rest.takeWhile p, List.takeWhile_append_dropWhile.symm, rfl, rfl⟩

end Cursor

namespace Parse

variable {α β : Type}

/-! ## Parses that only take tokens -/

/-- A parse that leaves a cursor behind the one it was given, or the same. -/
class Forward (p : Parse α) : Prop where
  reaches : ∀ {c d : Cursor} {n m : Nesting} {v : α}, p c n = .ok v d m → c.Reaches d

/-- A parse that takes at least one token. -/
class Strict (p : Parse α) : Prop where
  passes : ∀ {c d : Cursor} {n m : Nesting} {v : α}, p c n = .ok v d m → c.Passes d

/-- A parse whose result fits the cursor that it leaves. -/
class Finishes (Q : α → Cursor → Prop) (p : Parse α) : Prop where
  fits : ∀ {c d : Cursor} {n m : Nesting} {v : α}, p c n = .ok v d m → Q v d

section Combinators

variable {p q : Parse α} {f : α → Parse β} {b : Prop} [Decidable b] {Q : β → Cursor → Prop}
  {R : α → Cursor → Prop}

instance (v : α) : Forward (Pure.pure v) where
  reaches h := by
    cases h
    exact .refl _

theorem Forward.bind (hp : Forward p) (hf : ∀ v, Forward (f v)) : Forward (p >>= f) where
  reaches h := by
    obtain ⟨v, c', n', hp, hf⟩ := bind_eq_ok h
    exact (Forward.reaches hp).trans (Forward.reaches hf)

instance [hp : Forward p] [hf : ∀ v, Forward (f v)] : Forward (p >>= f) := hp.bind hf

instance [Strict p] [∀ v, Forward (f v)] : Strict (p >>= f) where
  passes h := by
    obtain ⟨v, c', n', hp, hf⟩ := bind_eq_ok h
    exact (Strict.passes hp).trans_reaches (Forward.reaches hf)

instance [Forward p] [∀ v, Strict (f v)] : Strict (p >>= f) where
  passes h := by
    obtain ⟨v, c', n', hp, hf⟩ := bind_eq_ok h
    exact (Forward.reaches hp).trans_passes (Strict.passes hf)

instance [∀ v, Finishes Q (f v)] : Finishes Q (p >>= f) where
  fits h := by
    obtain ⟨v, c', n', hp, hf⟩ := bind_eq_ok h
    exact Finishes.fits hf

instance [Forward p] [Forward q] : Forward (if b then p else q) := by
  split <;> infer_instance

instance [Strict p] [Strict q] : Strict (if b then p else q) := by
  split <;> infer_instance

instance [Finishes R p] [Finishes R q] : Finishes R (if b then p else q) := by
  split <;> infer_instance

instance (e : SyntaxError) : Forward (throw e : Parse α) where
  reaches h := by cases h

instance [Forward p] : Forward (observe p) where
  reaches h := by
    unfold observe at h
    split at h
    · cases h
      exact Forward.reaches ‹_›
    · cases h
      exact .refl _

instance [Forward p] : Forward (attempt p) where
  reaches h := by
    unfold attempt at h
    split at h
    · cases h
      exact Forward.reaches ‹_›
    · cases h
      exact .refl _

instance forward_bounded {loop : Nat → Parse α} [h : ∀ k, Forward (loop k)] :
    Forward (bounded loop) where
  reaches hloop := (h _).reaches hloop

instance : Forward (tooDeep : Parse α) where
  reaches h := by cases h

end Combinators

/-! ## Single tokens -/

section Single

/-- A parse that only looks at what is ahead. -/
theorem forward_of_look (f : Cursor → Nesting → α) : Forward fun c n => .ok (f c n) c n where
  reaches h := by
    cases h
    exact .refl _

instance (v : α) : Forward (Parse.pure v) := forward_of_look _

instance : Forward cursor := forward_of_look _

instance : Forward exceeded := forward_of_look _

instance : Forward peek := forward_of_look _

instance (k : Nat) : Forward (peekAt k) := forward_of_look _

instance : Forward here := forward_of_look _

instance : Forward last := forward_of_look _

instance (s : Symbol) : Forward (at? s) := forward_of_look _

instance (ss : List Symbol) : Forward (atAny? ss) := forward_of_look _

instance (w : String) : Forward (atWord? w) := forward_of_look _

instance : Forward advance where
  reaches h := by
    cases h
    exact Cursor.reaches_next _

instance (p : Token → Bool) : Forward (takeWhile p) where
  reaches h := by
    cases h
    exact Cursor.reaches_skipWhile _ p

instance (s : Symbol) : Forward (eat s) where
  reaches h := by
    unfold eat at h
    split at h
    · cases h
      exact Cursor.reaches_next _
    · cases h
      exact .refl _

instance (w : String) : Forward (eatWord w) where
  reaches h := by
    unfold eatWord at h
    split at h
    · cases h
      exact Cursor.reaches_next _
    · cases h
      exact .refl _

instance (what : Expectation) : Strict (expected what : Parse α) where
  passes h := by cases h

/-- A symbol that was expected was next, and it was taken. -/
theorem expect_eq_ok {s : Symbol} {c d : Cursor} {n m : Nesting} {t : Token}
    (h : expect s c n = .ok t d m) : t = c.peek ∧ d = c.next ∧ c.peek.isSymbol s = true := by
  unfold expect at h
  split at h
  · cases h
    exact ⟨rfl, rfl, ‹_›⟩
  · cases h

theorem expect_last {s : Symbol} {c d : Cursor} {n m : Nesting} {t : Token}
    (h : expect s c n = .ok t d m) : d.last = t.span := by
  obtain ⟨rfl, rfl, hs⟩ := expect_eq_ok h
  exact (Cursor.takes_next (Token.not_eof_of_isSymbol hs)).last

instance (s : Symbol) : Strict (expect s) where
  passes h := by
    obtain ⟨-, rfl, hs⟩ := expect_eq_ok h
    exact Cursor.passes_next (Token.not_eof_of_isSymbol hs)

instance (w : String) : Strict (expectWord w) where
  passes h := by
    unfold expectWord at h
    split at h
    · cases h
      exact Cursor.passes_next (Token.not_eof_of_isWord ‹_›)
    · cases h

instance : Strict expectName where
  passes h := by
    unfold expectName at h
    split at h
    · cases h
      exact Cursor.passes_next (Token.not_eof_of_isName ‹_›)
    · cases h

/-- A parse that takes a token only takes tokens. -/
instance (priority := low) {p : Parse α} [Strict p] : Forward p where
  reaches h := (Strict.passes h).reaches

instance (s : Symbol) : Forward (require s) where
  reaches h := by
    unfold require at h
    split at h
    · cases h
      exact .refl _
    · cases h

end Single

/-! ## Lists -/

section Lists

variable {p : Parse α} [Forward p]

instance (k : Nat) : Forward (commaListWithin p k) := by
  induction k with
  | zero =>
    unfold commaListWithin
    infer_instance
  | succ k ih =>
    unfold commaListWithin
    infer_instance

instance : Forward (commaList p) := by
  unfold commaList
  infer_instance

instance (close : Symbol) (k : Nat) : Forward (itemsWithin close p k) := by
  induction k with
  | zero =>
    unfold itemsWithin
    infer_instance
  | succ k ih =>
    unfold itemsWithin
    infer_instance

instance (close : Symbol) : Forward (itemsUntil close p) := by
  unfold itemsUntil
  infer_instance

end Lists

/-! ## Skipping -/

/-- A group ends behind the token that closes it. -/
theorem closeGroup_reaches {opening : Token} {closes : List Symbol} {last last' : Span}
    {ts rest : List Token} (stop : Span)
    (h : closeGroup opening closes last ts = .ok (last', rest)) :
    Cursor.Reaches ⟨last, ts, stop⟩ ⟨last', rest, stop⟩ := by
  induction ts generalizing closes last with
  | nil =>
    cases closes with
    | nil =>
      cases h
      exact .refl _
    | cons close outer => cases h
  | cons t ts ih =>
    cases closes with
    | nil =>
      cases h
      exact .refl _
    | cons close outer =>
      -- whichever token is next, it is taken, and the rest of the group follows
      have hstep : ∃ closes', closeGroup opening closes' t.span ts = .ok (last', rest) := by
        unfold closeGroup at h
        split at h
        · split at h
          · exact ⟨_, h⟩
          · split at h
            · exact ⟨_, h⟩
            · split at h
              · cases h
              · exact ⟨_, h⟩
        · exact ⟨_, h⟩
      obtain ⟨closes', hstep⟩ := hstep
      exact (Cursor.reaches_next _).trans (ih hstep)

instance : Strict skipGroup where
  passes {c d n m v} h := by
    unfold skipGroup at h
    dsimp only at h
    split at h
    · cases h
    · rename_i close hclose
      -- a token that has a closing one is not the end of the file
      have hopening := Token.not_eof_of_closing hclose
      split at h
      · rename_i hgroup
        cases h
        have hgroup := closeGroup_reaches c.stop hgroup
        rw [← Cursor.next_eq hopening] at hgroup
        exact (Cursor.passes_next hopening).trans_reaches hgroup
      · cases h

instance (group stop : Token → Bool) (k : Nat) : Forward (skipToWithin group stop k) := by
  induction k with
  | zero =>
    unfold skipToWithin
    infer_instance
  | succ k ih =>
    unfold skipToWithin
    infer_instance

instance (group stop : Token → Bool) : Forward (skipTo group stop) := by
  unfold skipTo
  infer_instance

/-- A symbol that is required is next. -/
instance (s : Symbol) : Finishes (fun _ c => c.peek.isSymbol s = true) (require s) where
  fits h := by
    unfold require at h
    split at h
    · cases h
      assumption
    · cases h

instance : Finishes (fun _ c => c.peek.isSymbol .semicolon = true) skipUntilSemicolon := by
  unfold skipUntilSemicolon
  infer_instance

instance : Forward skipUntilSemicolon := by
  unfold skipUntilSemicolon
  infer_instance

/-- The semicolon is taken, so something is. -/
instance : Strict skipPastSemicolon where
  passes h := by
    obtain ⟨_, c', n', hskip, h⟩ := bind_eq_ok h
    have hsemicolon : c'.peek.isSymbol .semicolon = true :=
      Finishes.fits (Q := fun _ c => c.peek.isSymbol .semicolon = true) hskip
    cases h
    exact (Forward.reaches hskip).trans_passes
      (Cursor.passes_next (Token.not_eof_of_isSymbol hsemicolon))

instance : Forward skipStatement := by
  unfold skipStatement
  infer_instance

instance : Forward skipMember := by
  unfold skipMember
  infer_instance

instance : Forward skipTypeBody := by
  unfold skipTypeBody
  infer_instance

instance : Forward skipConstraints := by
  unfold skipConstraints
  infer_instance

theorem closeAngles_reaches {depth : Nat} {last last' : Span} {ts rest : List Token} (stop : Span)
    (h : closeAngles depth last ts = some (last', rest)) :
    Cursor.Reaches ⟨last, ts, stop⟩ ⟨last', rest, stop⟩ := by
  induction ts generalizing depth last with
  | nil =>
    cases depth with
    | zero =>
      cases h
      exact .refl _
    | succ depth => cases h
  | cons t ts ih =>
    cases depth with
    | zero =>
      cases h
      exact .refl _
    | succ depth =>
      have hstep : ∃ depth', closeAngles depth' t.span ts = some (last', rest) := by
        unfold closeAngles at h
        split at h
        · exact ⟨_, h⟩
        · split at h
          · exact ⟨_, h⟩
          · exact ⟨_, h⟩
      obtain ⟨depth', hstep⟩ := hstep
      exact (Cursor.reaches_next _).trans (ih hstep)

instance : Forward skipAngles where
  reaches h := by
    obtain ⟨opening, c, n, hopening, h⟩ := bind_eq_ok h
    obtain ⟨_, _, _, hcursor, h⟩ := bind_eq_ok h
    cases hcursor
    have hlast : c.last = opening.span := expect_last hopening
    cases hangles : closeAngles 1 opening.span c.rest with
    | none =>
      rw [hangles] at h
      cases h
    | some behind =>
      rw [hangles] at h
      rw [← hlast] at hangles
      cases h
      exact (Forward.reaches hopening).trans (closeAngles_reaches c.stop hangles)

end Parse

end GatewayPolicy
