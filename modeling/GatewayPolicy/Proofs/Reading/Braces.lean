import GatewayPolicy.Proofs.Reading.Progress

/-! # Braces that are taken

  A production takes as many closing braces as opening ones, and never a closing brace that
  it did not open. There are four places where code is skipped whatever braces stand in it:
  type parameters, constraints, the parameters of a method, and those of a lambda.

  - `Braced` says that from some tokens on so many open braces are closed, loose stretches
    aside, and `Loose` says which stretches these are.
  - `Parse.Level` are the parses that leave as many braces open as they found, and
    `Parse.Closing` those that close one. Each is a class, so that a production has it because
    its parts do.
  - `Parse.LevelAt` is the same from one cursor on, for what depends on the next token.
-/

namespace GatewayPolicy

/-! ## Braces among tokens -/

def Symbol.isBrace : Symbol → Bool
  | openBrace | closeBrace => true
  | _ => false

/-- A symbol that opens a group is a brace if the one that closes it is. -/
theorem Symbol.opens_brace_or_plain {s close : Symbol} (h : s.closing? = some close) :
    (s = .openBrace ∧ close = .closeBrace) ∨ (s.isBrace = false ∧ close ≠ .closeBrace) := by
  cases s <;> cases h <;> decide

/-- A brace that opens no group closes one. -/
theorem Symbol.closes_brace_or_plain {s : Symbol} (h : s.closing? = none) :
    s = .closeBrace ∨ (s.isBrace = false ∧ s ≠ .closeBrace) := by
  revert h
  cases s <;> decide

theorem Symbol.plain_of_ne {s : Symbol} (hopen : s ≠ .openBrace) (hclose : s ≠ .closeBrace) :
    s.isBrace = false := by
  unfold isBrace
  split
  · exact absurd rfl hopen
  · exact absurd rfl hclose
  · rfl

/-- A symbol that is no brace. It is a class, so that a production that takes the symbol is
    known not to take a brace. -/
class Symbol.Unbraced (s : Symbol) : Prop where
  plain : s.isBrace = false

instance : Symbol.Unbraced .openParen := ⟨rfl⟩

instance : Symbol.Unbraced .closeParen := ⟨rfl⟩

instance : Symbol.Unbraced .openBracket := ⟨rfl⟩

instance : Symbol.Unbraced .closeBracket := ⟨rfl⟩

instance : Symbol.Unbraced .semicolon := ⟨rfl⟩

instance : Symbol.Unbraced .comma := ⟨rfl⟩

instance : Symbol.Unbraced .dot := ⟨rfl⟩

instance : Symbol.Unbraced .colon := ⟨rfl⟩

instance : Symbol.Unbraced .question := ⟨rfl⟩

instance : Symbol.Unbraced .assign := ⟨rfl⟩

instance : Symbol.Unbraced .arrow := ⟨rfl⟩

instance : Symbol.Unbraced .less := ⟨rfl⟩

instance : Symbol.Unbraced .greater := ⟨rfl⟩

/-- Whether a token is a brace. -/
def Token.isBrace (t : Token) : Bool :=
  match t.kind with
  | .symbol s => s.isBrace
  | _ => false

namespace Token

variable {t : Token}

theorem isBrace_of_isSymbol {s : Symbol} (h : t.isSymbol s = true) : t.isBrace = s.isBrace := by
  rw [isBrace, of_decide_eq_true h]

theorem isBrace_cases (h : t.isBrace = true) :
    t.isSymbol .openBrace = true ∨ t.isSymbol .closeBrace = true := by
  unfold isBrace at h
  split at h
  · rename_i s hkind
    cases s with
    | openBrace => exact .inl (decide_eq_true hkind)
    | closeBrace => exact .inr (decide_eq_true hkind)
    | _ => cases h
  · cases h

theorem not_isBrace_of_kind (hopen : t.kind ≠ .symbol .openBrace)
    (hclose : t.kind ≠ .symbol .closeBrace) : t.isBrace = false := by
  unfold isBrace
  split
  · rename_i s hkind
    rw [hkind] at hopen hclose
    exact Symbol.plain_of_ne (mt (congrArg _) hopen) (mt (congrArg _) hclose)
  · rfl

theorem isOpening_of_openBrace (h : t.isSymbol .openBrace = true) : t.isOpening = true := by
  rw [isOpening, closing?, of_decide_eq_true h]
  rfl

theorem not_isBrace_of_isAnySymbol {ss : List Symbol} (h : t.isAnySymbol ss = true)
    (hss : ∀ s ∈ ss, s.isBrace = false) : t.isBrace = false := by
  obtain ⟨s, hs, hsymbol⟩ := List.any_eq_true.1 h
  rw [isBrace_of_isSymbol hsymbol, hss s hs]

theorem not_isBrace_of_isIdentifier (h : t.isIdentifier = true) : t.isBrace = false := by
  rw [isBrace, of_decide_eq_true h]

theorem not_isBrace_of_isWord {w : String} (h : t.isWord w = true) : t.isBrace = false :=
  not_isBrace_of_isIdentifier (Bool.and_eq_true_iff.1 h).1

theorem not_isBrace_of_isAnyWord {ws : List String} (h : t.isAnyWord ws = true) :
    t.isBrace = false := by
  obtain ⟨w, -, hword⟩ := List.any_eq_true.1 h
  exact not_isBrace_of_isWord hword

theorem not_isBrace_of_isName (h : t.isName = true) : t.isBrace = false :=
  not_isBrace_of_isIdentifier (Bool.and_eq_true_iff.1 h).1

end Token

/-- Tokens that are skipped whatever braces stand among them, up to the tokens behind them. -/
inductive Loose : List Token → List Token → Prop where
  /-- A class up to the end of its type parameters. -/
  | ofClass {c d : Cursor} {n m : Nesting}
      (keyword : c.peek.isAnyWord ["class", "struct", "record"] = true)
      (name : c.next.peek.isName = true) (skip : Parse.skipAngles c.next.next n = .ok () d m) :
      Loose c.rest d.rest
  /-- A member or local function up to the end of its type parameters. -/
  | ofMember {c c₁ c₂ c₃ d : Cursor} {n n₁ n₂ n₃ m : Nesting} {type : String} {first name : Token}
      (typed : Parse.typeName c n = .ok type c₁ n₁)
      (named : Parse.expectName c₁ n₁ = .ok first c₂ n₂)
      (path : Parse.bounded (Parse.memberNameWithin · first) c₂ n₂ = .ok name c₃ n₃)
      (skip : Parse.skipAngles c₃ n₃ = .ok () d m) : Loose c.rest d.rest
  /-- Constraints of type parameters. -/
  | constraints {c d : Cursor} {n m : Nesting} (skip : Parse.skipConstraints c n = .ok () d m) :
      Loose c.rest d.rest
  /-- The parameters of a method, with their default values. -/
  | parameters {c d : Cursor} {n m : Nesting} {levels : Nat} {ps : List Parameter}
      (read : Parse.parameters (.within levels) c n = .ok ps d m) : Loose c.rest d.rest
  /-- The parameters of a lambda. -/
  | lambda {c d : Cursor} {n m : Nesting} {names : List String}
      (read : Parse.lambdaParameters? c n = .ok (some names) d m) : Loose c.rest d.rest

/-- Between some tokens and those behind them so many open braces are closed, and besides each
    brace that is opened. Braces in a loose stretch do not count. -/
inductive Braced : Nat → List Token → List Token → Prop where
  | done (ts : List Token) : Braced 0 ts ts
  | other {k : Nat} {t : Token} {ts rest : List Token} (plain : t.isBrace = false)
      (tail : Braced k ts rest) : Braced k (t :: ts) rest
  | opening {k : Nat} {t : Token} {ts rest : List Token} (brace : t.isSymbol .openBrace = true)
      (tail : Braced (k + 1) ts rest) : Braced k (t :: ts) rest
  | closing {k : Nat} {t : Token} {ts rest : List Token} (brace : t.isSymbol .closeBrace = true)
      (tail : Braced k ts rest) : Braced (k + 1) (t :: ts) rest
  | loose {k : Nat} {ts us rest : List Token} (skip : Loose ts us) (tail : Braced k us rest) :
      Braced k ts rest

theorem Braced.trans {j k : Nat} {ts us rest : List Token} (h : Braced j ts us)
    (h' : Braced k us rest) : Braced (j + k) ts rest := by
  induction h with
  | done ts =>
    rw [Nat.zero_add]
    exact h'
  | other plain _ ih => exact .other plain (ih h')
  | opening brace _ ih =>
    refine .opening brace ?_
    rw [Nat.add_right_comm]
    exact ih h'
  | closing brace _ ih =>
    rw [Nat.add_right_comm]
    exact .closing brace (ih h')
  | loose skip _ ih => exact .loose skip (ih h')

/-- Between two cursors so many open braces are closed. -/
def Cursor.Closes (k : Nat) (c d : Cursor) : Prop := Braced k c.rest d.rest

namespace Cursor

variable {c d e : Cursor} {j k : Nat}

theorem Closes.refl (c : Cursor) : Closes 0 c c := .done _

theorem Closes.trans (h : Closes 0 c d) (h' : Closes k d e) : Closes k c e := by
  rw [← Nat.zero_add k]
  exact Braced.trans h h'

theorem Closes.trans_level (h : Closes k c d) (h' : Closes 0 d e) : Closes k c e :=
  Braced.trans h h'

theorem closes_next (h : c.peek.isBrace = false) : Closes 0 c c.next := by
  obtain ⟨last, rest, stop⟩ := c
  cases rest with
  | nil => exact .done _
  | cons t ts => exact .other h (.done _)

theorem closes_opening (h : c.peek.isSymbol .openBrace = true) (h' : Closes (k + 1) c.next d) :
    Closes k c d := by
  obtain ⟨last, rest, stop⟩ := c
  cases rest with
  | nil => cases h
  | cons t ts => exact .opening h h'

theorem closes_closing (h : c.peek.isSymbol .closeBrace = true) : Closes 1 c c.next := by
  obtain ⟨last, rest, stop⟩ := c
  cases rest with
  | nil => cases h
  | cons t ts => exact .closing h (.done _)

end Cursor

namespace Parse

variable {α β : Type}

/-! ## Parses that are level with braces -/

/-- A parse that leaves as many braces open as it found. -/
class Level (p : Parse α) : Prop where
  level : ∀ {c d : Cursor} {n m : Nesting} {v : α}, p c n = .ok v d m → c.Closes 0 d

/-- A parse that closes a brace. -/
class Closing (p : Parse α) : Prop where
  closes : ∀ {c d : Cursor} {n m : Nesting} {v : α}, p c n = .ok v d m → c.Closes 1 d

/-- A parse that leaves as many braces open as it found, from one cursor on. -/
def LevelAt (c : Cursor) (p : Parse α) : Prop :=
  ∀ (d : Cursor) (n m : Nesting) (v : α), p c n = .ok v d m → c.Closes 0 d

section Combinators

variable {p q : Parse α} {f : α → Parse β} {b : Prop} [Decidable b] {c : Cursor}

theorem Level.at (h : Level p) (c : Cursor) : LevelAt c p := fun _ _ _ _ => h.level

theorem Level.of_at (h : ∀ c, LevelAt c p) : Level p where
  level hp := h _ _ _ _ _ hp

instance (v : α) : Level (Pure.pure v) where
  level h := by
    cases h
    exact .refl _

instance (v : α) : Level (Parse.pure v) := inferInstanceAs (Level (Pure.pure v))

theorem LevelAt.bind (hp : LevelAt c p) (hf : ∀ v d, LevelAt d (f v)) : LevelAt c (p >>= f) := by
  intro d n m v h
  obtain ⟨w, c', n', hrun, h⟩ := bind_eq_ok h
  exact (hp _ _ _ _ hrun).trans (hf _ _ _ _ _ _ h)

theorem Level.bind (hp : Level p) (hf : ∀ v, Level (f v)) : Level (p >>= f) :=
  .of_at fun c => (hp.at c).bind fun v d => (hf v).at d

instance [hp : Level p] [hf : ∀ v, Level (f v)] : Level (p >>= f) := hp.bind hf

instance [Level p] [∀ v, Closing (f v)] : Closing (p >>= f) where
  closes h := by
    obtain ⟨w, c', n', hp, hf⟩ := bind_eq_ok h
    exact (Level.level hp).trans (Closing.closes hf)

instance [Closing p] [∀ v, Level (f v)] : Closing (p >>= f) where
  closes h := by
    obtain ⟨w, c', n', hp, hf⟩ := bind_eq_ok h
    exact (Closing.closes hp).trans_level (Level.level hf)

instance [Level p] [Level q] : Level (if b then p else q) := by
  split <;> infer_instance

instance [Closing p] [Closing q] : Closing (if b then p else q) := by
  split <;> infer_instance

instance (e : SyntaxError) : Level (throw e : Parse α) where
  level h := by cases h

instance (what : Expectation) : Level (expected what : Parse α) where
  level h := by cases h

instance (what : Expectation) : Closing (expected what : Parse α) where
  closes h := by cases h

instance : Level (tooDeep : Parse α) where
  level h := by cases h

instance [Level p] : Level (observe p) where
  level h := by
    unfold observe at h
    split at h
    · cases h
      exact Level.level ‹_›
    · cases h
      exact .refl _

instance [Level p] : Level (attempt p) where
  level h := by
    unfold attempt at h
    split at h
    · cases h
      exact Level.level ‹_›
    · cases h
      exact .refl _

instance level_bounded {loop : Nat → Parse α} [h : ∀ k, Level (loop k)] :
    Level (bounded loop) where
  level hloop := (h _).level hloop

instance closing_bounded {loop : Nat → Parse α} [h : ∀ k, Closing (loop k)] :
    Closing (bounded loop) where
  closes hloop := (h _).closes hloop

end Combinators

/-! ## Single tokens -/

section Single

variable {c : Cursor} {f : α → Parse β}

/-- What only looks ahead may tell something about the next token. -/
theorem levelAt_look {look : Parse α} {v : α} (hlook : ∀ n, look c n = .ok v c n)
    (hf : LevelAt c (f v)) : LevelAt c (look >>= f) := by
  intro d n m w h
  obtain ⟨v', c', n', hrun, h⟩ := bind_eq_ok h
  rw [hlook] at hrun
  cases hrun
  exact hf _ _ _ _ h

theorem levelAt_advance {f : Token → Parse β} (h : c.peek.isBrace = false)
    (hf : LevelAt c.next (f c.peek)) : LevelAt c (advance >>= f) := by
  intro d n m w hrun
  obtain ⟨v, c', n', hadvance, hrun⟩ := bind_eq_ok hrun
  cases hadvance
  exact (Cursor.closes_next h).trans (hf _ _ _ _ hrun)

theorem level_of_look (f : Cursor → Nesting → α) : Level fun c n => .ok (f c n) c n where
  level h := by
    cases h
    exact .refl _

instance : Level cursor := level_of_look _

instance : Level exceeded := level_of_look _

instance : Level peek := level_of_look _

instance (k : Nat) : Level (peekAt k) := level_of_look _

instance : Level here := level_of_look _

instance : Level last := level_of_look _

instance (s : Symbol) : Level (at? s) := level_of_look _

instance (ss : List Symbol) : Level (atAny? ss) := level_of_look _

instance (w : String) : Level (atWord? w) := level_of_look _

instance (s : Symbol) : Level (require s) where
  level h := by
    unfold require at h
    split at h
    · cases h
      exact .refl _
    · cases h

instance (w : String) : Level (eatWord w) where
  level h := by
    unfold eatWord at h
    split at h
    · cases h
      exact Cursor.closes_next (Token.not_isBrace_of_isWord ‹_›)
    · cases h
      exact .refl _

instance (w : String) : Level (expectWord w) where
  level h := by
    unfold expectWord at h
    split at h
    · cases h
      exact Cursor.closes_next (Token.not_isBrace_of_isWord ‹_›)
    · cases h

instance : Level expectName where
  level h := by
    unfold expectName at h
    split at h
    · cases h
      exact Cursor.closes_next (Token.not_isBrace_of_isName ‹_›)
    · cases h

/-- Words are no braces, however many are taken. -/
instance (ws : List String) : Level (takeWhile (·.isAnyWord ws)) where
  level {c d n m v} h := by
    cases h
    obtain ⟨last, rest, stop⟩ := c
    show Braced 0 rest (rest.dropWhile (·.isAnyWord ws))
    induction rest with
    | nil => exact .done _
    | cons t ts ih =>
      by_cases ht : t.isAnyWord ws = true
      · rw [List.dropWhile_cons, if_pos ht]
        exact .other (Token.not_isBrace_of_isAnyWord ht) ih
      · rw [List.dropWhile_cons, if_neg ht]
        exact .done _

instance (s : Symbol) [s.Unbraced] : Level (eat s) where
  level h := by
    unfold eat at h
    split at h
    · rename_i hs
      cases h
      exact Cursor.closes_next ((Token.isBrace_of_isSymbol hs).trans Symbol.Unbraced.plain)
    · cases h
      exact .refl _

instance (s : Symbol) [s.Unbraced] : Level (expect s) where
  level h := by
    obtain ⟨-, rfl, hs⟩ := expect_eq_ok h
    exact Cursor.closes_next ((Token.isBrace_of_isSymbol hs).trans Symbol.Unbraced.plain)

instance : Closing (expect .closeBrace) where
  closes h := by
    obtain ⟨-, rfl, hs⟩ := expect_eq_ok h
    exact Cursor.closes_closing hs

/-- What closes a brace may follow one that opens. -/
instance {f : Token → Parse β} [∀ t, Closing (f t)] : Level (expect .openBrace >>= f) where
  level h := by
    obtain ⟨t, c', n', hopen, h⟩ := bind_eq_ok h
    obtain ⟨-, rfl, hs⟩ := expect_eq_ok hopen
    exact Cursor.closes_opening hs (Closing.closes h)

/-- A brace that is there is opened and closed, and else there is none. -/
instance {p q : Parse β} [hp : Closing p] [hq : Level q] :
    Level (eat .openBrace >>= fun b => if b = true then p else q) where
  level h := by
    obtain ⟨b, c', n', heat, h⟩ := bind_eq_ok h
    unfold eat at heat
    split at heat
    · rename_i hs
      cases heat
      exact Cursor.closes_opening hs (hp.closes h)
    · cases heat
      exact hq.level h

/-- A brace is closed here, or by what follows. -/
instance {p q : Parse β} [hp : Level p] [hq : Closing q] :
    Closing (eat .closeBrace >>= fun b => if b = true then p else q) where
  closes h := by
    obtain ⟨b, c', n', heat, h⟩ := bind_eq_ok h
    unfold eat at heat
    split at heat
    · rename_i hs
      cases heat
      exact (Cursor.closes_closing hs).trans_level (hp.level h)
    · cases heat
      exact hq.closes h

end Single

/-! ## Lists -/

section Lists

variable {p : Parse α} [Level p]

instance (k : Nat) : Level (commaListWithin p k) := by
  induction k with
  | zero =>
    unfold commaListWithin
    infer_instance
  | succ k ih =>
    unfold commaListWithin
    infer_instance

instance : Level (commaList p) := by
  unfold commaList
  infer_instance

instance (close : Symbol) (k : Nat) : Level (itemsWithin close p k) := by
  induction k with
  | zero =>
    unfold itemsWithin
    infer_instance
  | succ k ih =>
    unfold itemsWithin
    infer_instance

instance (close : Symbol) [close.Unbraced] : Level (itemsUntil close p) := by
  unfold itemsUntil
  infer_instance

instance : Closing (itemsUntil .closeBrace p) := by
  unfold itemsUntil
  infer_instance

end Lists

/-! ## Skipping -/

/-- The brackets inside a group match, so the braces among them do. -/
theorem closeGroup_braced {opening : Token} {closes : List Symbol} {last last' : Span}
    {ts rest : List Token} (h : closeGroup opening closes last ts = .ok (last', rest)) :
    Braced (closes.count .closeBrace) ts rest := by
  induction ts generalizing closes last with
  | nil =>
    cases closes with
    | nil =>
      cases h
      exact .done _
    | cons close outer => cases h
  | cons t ts ih =>
    cases closes with
    | nil =>
      cases h
      exact .done _
    | cons close outer =>
      rw [closeGroup] at h
      split at h
      · rename_i s hkind
        have hsymbol : t.isSymbol s = true := decide_eq_true hkind
        split at h
        · -- one more group begins inside
          rename_i inner hinner
          have htail := ih h
          obtain ⟨rfl, rfl⟩ | ⟨hs, hne⟩ := Symbol.opens_brace_or_plain hinner
          · rw [List.count_cons_self] at htail
            exact .opening hsymbol htail
          · rw [List.count_cons_of_ne hne] at htail
            exact .other ((Token.isBrace_of_isSymbol hsymbol).trans hs) htail
        · rename_i hinner
          split at h
          · -- the innermost group ends
            rename_i hsame
            subst hsame
            have htail := ih h
            obtain rfl | ⟨hs, hne⟩ := Symbol.closes_brace_or_plain hinner
            · rw [List.count_cons_self]
              exact .closing hsymbol htail
            · rw [List.count_cons_of_ne hne]
              exact .other ((Token.isBrace_of_isSymbol hsymbol).trans hs) htail
          · -- a brace that closes another group than the innermost one is refused
            split at h
            · cases h
            · rename_i hclosing
              obtain rfl | ⟨hs, -⟩ := Symbol.closes_brace_or_plain hinner
              · exact absurd rfl hclosing
              · exact .other ((Token.isBrace_of_isSymbol hsymbol).trans hs) (ih h)
      · rename_i hkind
        exact .other (Token.not_isBrace_of_kind (hkind _) (hkind _)) (ih h)

instance : Level skipGroup where
  level {c d n m v} h := by
    unfold skipGroup at h
    dsimp only at h
    split at h
    · cases h
    · rename_i close hclose
      split at h
      · rename_i hgroup
        cases h
        -- the group ends behind one brace more than are opened in it, if a brace opens it
        have hbraced := closeGroup_braced hgroup
        unfold Token.closing? at hclose
        split at hclose
        · rename_i s hkind
          have hsymbol : c.peek.isSymbol s = true := decide_eq_true hkind
          obtain ⟨rfl, rfl⟩ | ⟨hs, hne⟩ := Symbol.opens_brace_or_plain hclose
          · exact Cursor.closes_opening hsymbol hbraced
          · rw [List.count_cons_of_ne hne] at hbraced
            exact (Cursor.closes_next ((Token.isBrace_of_isSymbol hsymbol).trans hs)).trans hbraced
        · cases hclose
      · cases h

section Skip

variable {group stop : Token → Bool}

/-- Code is skipped level with braces if each brace opens a group or ends the skipping. -/
theorem level_skipToWithin (h : ∀ t, t.isBrace = true → group t = true ∨ stop t = true) (k : Nat) :
    Level (skipToWithin group stop k) := by
  induction k with
  | zero =>
    unfold skipToWithin
    infer_instance
  | succ k ih =>
    refine .of_at fun c => ?_
    unfold skipToWithin
    refine levelAt_look (fun _ => rfl) ?_
    split
    · exact Level.at inferInstance c
    · rename_i hgo
      split
      · exact Level.at inferInstance c
      · rename_i hgroup
        -- what neither opens a group nor ends the skipping is skipped by itself
        have hplain : c.peek.isBrace = false := by
          by_contra hbrace
          rcases h _ (Bool.not_eq_false _ ▸ hbrace) with hyes | hyes
          · exact hgroup hyes
          · exact hgo (Bool.or_eq_true_iff.2 (.inr hyes))
        exact levelAt_advance hplain (ih.at _)

theorem level_skipTo (h : ∀ t, t.isBrace = true → group t = true ∨ stop t = true) :
    Level (skipTo group stop) :=
  @level_bounded _ _ (level_skipToWithin h)

/-- Where all groups are skipped, only a closing brace can end the skipping. -/
theorem level_skipTo_opening {ss : List Symbol} (hclose : .closeBrace ∈ ss) :
    Level (skipTo Token.isOpening (·.isAnySymbol ss)) := by
  refine level_skipTo fun t ht => ?_
  rcases Token.isBrace_cases ht with hopen | hbrace
  · exact .inl (Token.isOpening_of_openBrace hopen)
  · exact .inr (List.any_eq_true.2 ⟨_, hclose, hbrace⟩)

theorem level_skipTo_braces {ss : List Symbol} (hopen : .openBrace ∈ ss)
    (hclose : .closeBrace ∈ ss) : Level (skipTo group (·.isAnySymbol ss)) := by
  refine level_skipTo fun t ht => .inr ?_
  rcases Token.isBrace_cases ht with hbrace | hbrace
  · exact List.any_eq_true.2 ⟨_, hopen, hbrace⟩
  · exact List.any_eq_true.2 ⟨_, hclose, hbrace⟩

end Skip

instance : Level skipUntilSemicolon := by
  unfold skipUntilSemicolon
  exact (level_skipTo_opening (by decide)).bind fun _ => inferInstance

instance : Level skipPastSemicolon where
  level h := by
    obtain ⟨_, c', n', hskip, h⟩ := bind_eq_ok h
    have hsemicolon : c'.peek.isSymbol .semicolon = true :=
      Finishes.fits (Q := fun _ c => c.peek.isSymbol .semicolon = true) hskip
    cases h
    exact (Level.level hskip).trans (Cursor.closes_next (Token.isBrace_of_isSymbol hsemicolon))

instance : Level skipStatement := by
  unfold skipStatement
  refine (level_skipTo_braces (by decide) (by decide)).bind fun _ => .of_at fun c => ?_
  refine levelAt_look (fun _ => rfl) ?_
  split
  · exact Level.at inferInstance c
  · split
    · exact Level.at inferInstance c
    · split
      · rename_i hsemicolon
        exact levelAt_advance (Token.isBrace_of_isSymbol hsemicolon) (Level.at inferInstance _)
      · exact Level.at inferInstance c

instance : Level skipMember := by
  unfold skipMember
  refine (level_skipTo_braces (by decide) (by decide)).bind fun _ => .of_at fun c => ?_
  refine levelAt_look (fun _ => rfl) ?_
  split
  · rename_i hsemicolon
    exact levelAt_advance (Token.isBrace_of_isSymbol hsemicolon) (Level.at inferInstance _)
  · exact Level.at inferInstance c

instance : Level skipTypeBody := by
  unfold skipTypeBody
  exact (level_skipTo_braces (by decide) (by decide)).bind fun _ => inferInstance

/-- Constraints are loose. -/
instance : Level skipConstraints where
  level h := .loose (.constraints h) (.done _)

end Parse

end GatewayPolicy
