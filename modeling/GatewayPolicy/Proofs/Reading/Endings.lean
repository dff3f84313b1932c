import GatewayPolicy.Proofs.Reading.Placement

/-! # What the tokens of a production end with

  An exclamation mark that asserts a value may follow an operand, and is then taken but
  belongs to no expression. So it matters that other productions never end with one: types,
  groups in brackets, and lists up to a closing symbol.

  - `Cursor.PassesPlain` says that tokens were taken and the last of them is no exclamation
    mark, `Cursor.ReachesPlain` that this is so if any were taken.
  - `Parse.EndsPlain` are the parses that never end with an exclamation mark. It is a class,
    so that a production has it because its parts do.
-/

namespace GatewayPolicy

/-! ## Plain tokens -/

/-- A token that is no exclamation mark. -/
def Token.Plain (t : Token) : Prop := t.isSymbol .bang = false

namespace Token

variable {t : Token}

theorem plain_of_isSymbol {s : Symbol} (h : t.isSymbol s = true) (hs : s ≠ .bang) : t.Plain := by
  unfold Plain isSymbol at *
  rw [decide_eq_true_iff] at h
  rw [decide_eq_false_iff_not, h]
  exact fun heq => hs (TokenKind.symbol.inj heq)

theorem plain_of_isAnySymbol {ss : List Symbol} (h : t.isAnySymbol ss = true)
    (hs : .bang ∉ ss) : t.Plain := by
  obtain ⟨s, hmem, hs'⟩ := List.any_eq_true.mp h
  exact plain_of_isSymbol hs' fun heq => hs (heq ▸ hmem)

theorem plain_of_isIdentifier (h : t.isIdentifier = true) : t.Plain := by
  unfold Plain isSymbol isIdentifier at *
  rw [decide_eq_true_iff] at h
  rw [h]
  rfl

end Token

/-- Tokens were taken, and the last of them is plain. -/
def Cursor.PassesPlain (c d : Cursor) : Prop :=
  ∃ taken t, t.Plain ∧ c.Takes (taken ++ [t]) d

/-- No token was taken, or the last of those taken is plain. -/
def Cursor.ReachesPlain (c d : Cursor) : Prop := d = c ∨ c.PassesPlain d

namespace Cursor

variable {c d e : Cursor}

theorem Reaches.trans_plain (h : c.Reaches d) (h' : d.PassesPlain e) : c.PassesPlain e := by
  obtain ⟨xs, hxs⟩ := h
  obtain ⟨ys, t, ht, hys⟩ := h'
  refine ⟨xs ++ ys, t, ht, ?_⟩
  rw [List.append_assoc]
  exact hxs.append hys

theorem PassesPlain.passes (h : c.PassesPlain d) : c.Passes d := by
  obtain ⟨xs, t, -, hxs⟩ := h
  exact ⟨_, List.append_ne_nil_of_right_ne_nil _ (List.cons_ne_nil _ _), hxs⟩

theorem PassesPlain.trans (h : c.PassesPlain d) (h' : d.ReachesPlain e) : c.PassesPlain e := by
  rcases h' with rfl | h'
  · exact h
  · exact h.passes.reaches.trans_plain h'

theorem ReachesPlain.trans (h : c.ReachesPlain d) (h' : d.ReachesPlain e) : c.ReachesPlain e := by
  rcases h with rfl | h
  · exact h'
  · exact .inr (h.trans h')

/-- Where a token was taken at all, the last one is plain. -/
theorem ReachesPlain.passes (h : c.ReachesPlain d) (hpasses : c.Passes d) : c.PassesPlain d := by
  rcases h with rfl | h
  · exact absurd hpasses.length_lt (Nat.lt_irrefl _)
  · exact h

theorem passesPlain_next (h : c.peek.isEof = false) (ht : c.peek.Plain) : c.PassesPlain c.next :=
  ⟨[], c.peek, ht, takes_next h⟩

theorem passesPlain_symbol {s : Symbol} (h : c.peek.isSymbol s = true) (hs : s ≠ .bang) :
    c.PassesPlain c.next :=
  passesPlain_next (Token.not_eof_of_isSymbol h) (Token.plain_of_isSymbol h hs)

theorem passesPlain_identifier (h : c.peek.isIdentifier = true) : c.PassesPlain c.next :=
  passesPlain_next (Token.not_eof_of_isIdentifier h) (Token.plain_of_isIdentifier h)

/-- The token before the cursor is plain. -/
theorem StandsAt.passesPlain {ts : List Token} {stop : Span} {i : Nat}
    (hc : c.StandsAt ts stop i) (h : c.PassesPlain d) :
    ∃ j, i ≤ j ∧ d.StandsAt ts stop (j + 1) ∧ ¬MarkAt ts j := by
  obtain ⟨taken, t, ht, htakes⟩ := h
  have hd := hc.takes htakes
  rw [List.length_append, List.length_singleton, ← Nat.add_assoc] at hd
  refine ⟨i + taken.length, Nat.le_add_right _ _, hd, ?_⟩
  have htoken : ts[i + taken.length]? = some t := by
    rw [← List.getElem?_drop, ← hc.rest, htakes.rest, List.append_assoc,
      List.getElem?_append_right (Nat.le_refl _), Nat.sub_self]
    rfl
  exact not_markAt htoken ht

end Cursor

namespace Parse

variable {α : Type} {c d : Cursor} {n m : Nesting} {v : α}

/-! ## Groups and lists -/

theorem expect_plain {s : Symbol} {t : Token} (h : expect s c n = .ok t d m) (hs : s ≠ .bang) :
    c.PassesPlain d := by
  obtain ⟨-, rfl, hsymbol⟩ := expect_eq_ok h
  exact Cursor.passesPlain_symbol hsymbol hs

theorem eat_plain {s : Symbol} {eaten : Bool} (h : eat s c n = .ok eaten d m) (hs : s ≠ .bang) :
    c.ReachesPlain d := by
  unfold eat at h
  split at h
  · rename_i hsymbol
    cases h
    exact .inr (Cursor.passesPlain_symbol hsymbol hs)
  · cases h
    exact .inl rfl

/-- A parse that ends with a symbol, which is not part of the result. -/
theorem closed_plain {p : Parse α} [Forward p] {close : Symbol} (hclose : close ≠ .bang)
    (h : (do
      let v ← p
      let _ ← expect close
      return v) c n = .ok v d m) : c.PassesPlain d := by
  obtain ⟨w, c', _, hp, h⟩ := bind_eq_ok h
  obtain ⟨t, c'', _, hexpect, h⟩ := bind_eq_ok h
  cases h
  exact (Forward.reaches hp).trans_plain (expect_plain hexpect hclose)

theorem itemsUntil_plain {item : Parse α} [Forward item] {close : Symbol} {vs : List α}
    (hclose : close ≠ .bang) (h : itemsUntil close item c n = .ok vs d m) : c.PassesPlain d :=
  closed_plain hclose h

/-- A symbol that closes a group is no exclamation mark. -/
theorem closing_ne_bang {s close : Symbol} (h : s.closing? = some close) : close ≠ .bang := by
  cases s <;> cases h <;> decide

/-- A group that is still open is closed by the token taken last. -/
theorem closeGroup_plain {opening : Token} {close : Symbol} {outer : List Symbol}
    {last last' : Span} {ts rest : List Token} (stop : Span)
    (hcloses : ∀ s ∈ close :: outer, s ≠ .bang)
    (h : closeGroup opening (close :: outer) last ts = .ok (last', rest)) :
    Cursor.PassesPlain ⟨last, ts, stop⟩ ⟨last', rest, stop⟩ := by
  induction ts generalizing close outer last with
  | nil => cases h
  | cons t ts ih =>
    have hnext : Cursor.Reaches ⟨last, t :: ts, stop⟩ ⟨t.span, ts, stop⟩ := Cursor.reaches_next _
    rw [closeGroup] at h
    split at h
    · rename_i s hkind
      split at h
      · -- one more group begins inside
        rename_i inner hinner
        exact hnext.trans_plain
          (ih (List.forall_mem_cons.mpr ⟨closing_ne_bang hinner, hcloses⟩) h)
      · split at h
        · -- the innermost group ends, and with the outermost all of them
          rename_i hsame
          obtain ⟨hclose, houter⟩ := List.forall_mem_cons.mp hcloses
          cases outer with
          | nil =>
            have hend : closeGroup opening [] t.span ts = .ok (t.span, ts) := by
              cases ts <;> rfl
            rw [hend] at h
            cases h
            have hsymbol : t.isSymbol s = true := decide_eq_true hkind
            exact Cursor.passesPlain_symbol (c := ⟨last, t :: rest, stop⟩) hsymbol (hsame ▸ hclose)
          | cons close' outer => exact hnext.trans_plain (ih houter h)
        · split at h
          · cases h
          · exact hnext.trans_plain (ih hcloses h)
    · exact hnext.trans_plain (ih hcloses h)

theorem skipGroup_plain {span : Span} (h : skipGroup c n = .ok span d m) : c.PassesPlain d := by
  unfold skipGroup at h
  dsimp only at h
  split at h
  · cases h
  · rename_i close hclose
    split at h
    · rename_i hgroup
      cases h
      have hopening := Token.not_eof_of_closing hclose
      have hplain : ∀ s ∈ [close], s ≠ .bang := by
        refine List.forall_mem_singleton.mpr ?_
        unfold Token.closing? at hclose
        split at hclose
        · exact closing_ne_bang hclose
        · cases hclose
      have hgroup := closeGroup_plain c.stop hplain hgroup
      rw [← Cursor.next_eq hopening] at hgroup
      exact (Cursor.reaches_next c).trans_plain hgroup
    · cases h

/-! ## Types -/

theorem typeArgumentsOf_plain {type : Parse String} [Forward type] {types : List String}
    (h : typeArgumentsOf type c n = .ok types d m) : c.PassesPlain d := by
  obtain ⟨_, c', _, hopen, h⟩ := bind_eq_ok h
  exact (Forward.reaches hopen).trans_plain (closed_plain (by decide) h)

theorem typePathWithin_plain {type : Parse String} [Forward type] {k : Nat} {u : Unit}
    (h : typePathWithin type k c n = .ok u d m) : c.ReachesPlain d := by
  induction k generalizing c n with
  | zero =>
    cases h
    exact .inl rfl
  | succ k ih =>
    rw [typePathWithin] at h
    extract_lets rest at h
    have hrest : ∀ c n, rest () c n = .ok u d m → c.ReachesPlain d := by
      intro c n h
      obtain ⟨_, _, _, hdot, h⟩ := bind_eq_ok h
      cases hdot
      obtain ⟨_, _, _, hname, h⟩ := bind_eq_ok h
      cases hname
      split at h
      · rename_i hpath
        rw [Bool.and_eq_true] at hpath
        obtain ⟨_, _, _, hadvance, h⟩ := bind_eq_ok h
        cases hadvance
        obtain ⟨_, _, _, hadvance, h⟩ := bind_eq_ok h
        cases hadvance
        -- the dot and the name behind it are taken
        have hname : c.next.peek.isIdentifier = true := by
          rw [Cursor.peek_next]
          exact hpath.2
        have hpasses : c.PassesPlain c.next.next :=
          (Cursor.reaches_next c).trans_plain (Cursor.passesPlain_identifier hname)
        exact .inr (hpasses.trans (ih h))
      · cases h
        exact .inl rfl
    obtain ⟨_, _, _, hless, h⟩ := bind_eq_ok h
    cases hless
    split at h
    · obtain ⟨types, c', n', htypes, h⟩ := bind_eq_ok h
      exact .inr ((typeArgumentsOf_plain htypes).trans (hrest c' n' h))
    · exact hrest c n h

theorem typeEndingWithin_plain {k : Nat} {u : Unit} (h : typeEndingWithin k c n = .ok u d m) :
    c.ReachesPlain d := by
  induction k generalizing c n with
  | zero =>
    cases h
    exact .inl rfl
  | succ k ih =>
    obtain ⟨_, _, _, hnext, h⟩ := bind_eq_ok h
    cases hnext
    obtain ⟨_, _, _, hquestion, h⟩ := bind_eq_ok h
    cases hquestion
    split at h
    · rename_i hmark
      rw [Bool.and_eq_true] at hmark
      obtain ⟨_, _, _, hadvance, h⟩ := bind_eq_ok h
      cases hadvance
      exact .inr ((Cursor.passesPlain_symbol hmark.1 (by decide)).trans (ih h))
    · obtain ⟨_, _, _, hbracket, h⟩ := bind_eq_ok h
      cases hbracket
      split at h
      · obtain ⟨_, c', n', hgroup, h⟩ := bind_eq_ok h
        exact .inr ((skipGroup_plain hgroup).trans (ih h))
      · cases h
        exact .inl rfl

theorem typeOf_plain {inner : Parse String} [Forward inner] {text : String}
    (h : typeOf inner c n = .ok text d m) : c.PassesPlain d := by
  obtain ⟨start, _, _, hstart, h⟩ := bind_eq_ok h
  cases hstart
  extract_lets ending at h
  have hending : ∀ u c n, ending u c n = .ok text d m → c.ReachesPlain d := by
    intro u c n h
    obtain ⟨_, c', _, hmarks, h⟩ := bind_eq_ok h
    obtain ⟨_, _, _, hcursor, h⟩ := bind_eq_ok h
    cases hcursor
    cases h
    exact typeEndingWithin_plain hmarks
  split at h
  · obtain ⟨_, c', n', hgroup, h⟩ := bind_eq_ok h
    exact (skipGroup_plain hgroup).trans (hending () c' n' h)
  · split at h
    · rename_i hname
      rw [Token.namesType, Bool.and_eq_true] at hname
      obtain ⟨_, _, _, hadvance, h⟩ := bind_eq_ok h
      cases hadvance
      obtain ⟨_, c', n', hpath, h⟩ := bind_eq_ok h
      exact (Cursor.passesPlain_identifier hname.1).trans
        ((typePathWithin_plain hpath).trans (hending () c' n' h))
    · obtain ⟨_, _, _, hexpected, _⟩ := bind_eq_ok h
      cases hexpected

theorem typeName_plain {text : String} (h : typeName c n = .ok text d m) : c.PassesPlain d := by
  have hunfold : typeName = typeOf typeName := typeName_solves.unfolds ()
  rw [hunfold] at h
  exact typeOf_plain h

/-! ## Parses that end plainly -/

/-- A parse that never ends with an exclamation mark. -/
class EndsPlain (p : Parse α) : Prop where
  plain : ∀ {c d : Cursor} {n m : Nesting} {v : α}, p c n = .ok v d m → c.ReachesPlain d

section EndsPlain

variable {β : Type} {p q : Parse α} {f : α → Parse β} {b : Prop} [Decidable b]

instance (v : α) : EndsPlain (Pure.pure v) where
  plain h := by
    cases h
    exact .inl rfl

instance [EndsPlain p] [∀ v, EndsPlain (f v)] : EndsPlain (p >>= f) where
  plain h := by
    obtain ⟨v, c', _, hp, h⟩ := bind_eq_ok h
    exact (EndsPlain.plain hp).trans (EndsPlain.plain h)

instance [EndsPlain p] [EndsPlain q] : EndsPlain (if b then p else q) := by
  split <;> infer_instance

instance (what : Expectation) : EndsPlain (expected what : Parse α) where
  plain h := by cases h

/-- A parse that only looks at what is ahead. -/
theorem endsPlain_of_look (look : Cursor → Nesting → α) :
    EndsPlain fun c n => .ok (look c n) c n where
  plain h := by
    cases h
    exact .inl rfl

instance : EndsPlain peek := endsPlain_of_look _

instance : EndsPlain last := endsPlain_of_look _

instance (k : Nat) : EndsPlain (peekAt k) := endsPlain_of_look _

instance (s : Symbol) : EndsPlain (at? s) := endsPlain_of_look _

instance (ss : List Symbol) : EndsPlain (atAny? ss) := endsPlain_of_look _

instance : EndsPlain skipGroup where
  plain h := .inr (skipGroup_plain h)

instance : EndsPlain typeName where
  plain h := .inr (typeName_plain h)

instance (w : String) : EndsPlain (expectWord w) where
  plain h := by
    unfold expectWord at h
    split at h
    · rename_i hword
      cases h
      exact .inr (Cursor.passesPlain_identifier (Bool.and_eq_true_iff.mp hword).1)
    · cases h

theorem endsPlain_expect {s : Symbol} (hs : s ≠ .bang) : EndsPlain (expect s) where
  plain h := .inr (expect_plain h hs)

theorem endsPlain_eat {s : Symbol} (hs : s ≠ .bang) : EndsPlain (eat s) where
  plain h := eat_plain h hs

theorem endsPlain_itemsUntil {item : Parse α} [Forward item] {close : Symbol}
    (hclose : close ≠ .bang) : EndsPlain (itemsUntil close item) where
  plain h := .inr (itemsUntil_plain hclose h)

/-- A parse that takes a token and ends plainly. -/
theorem passesPlain [EndsPlain p] [Strict p] {v : α} (h : p c n = .ok v d m) : c.PassesPlain d :=
  (EndsPlain.plain h).passes (Strict.passes h)

end EndsPlain

end Parse

end GatewayPolicy
