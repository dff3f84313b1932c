import GatewayPolicy.Proofs.Lexical.Stretch
import GatewayPolicy.Proofs.Reading.BracedDeclarations
import GatewayPolicy.Proofs.Reading.Totality

/-! # The braces of a file

  The braces of a file that parses are balanced, apart from those in type parameters,
  constraints, the parameters of methods and of lambdas. These are skipped without looking at
  braces, so an unbalanced brace in them goes unnoticed.

  - `BalancedBraces` is the plain notion of balance, which can be computed.
  - `SourceTree.braces_balanced` is the result, and `looseTexts` are files in which a brace
    goes unnoticed, one for each place.
-/

namespace GatewayPolicy

/-! ## Balance -/

/-- How many braces are open behind some tokens, when so many were open in front of them and
    none was closed that was not open. -/
def openBraces : Nat → List Token → Option Nat
  | k, [] => some k
  | k, t :: ts =>
    if t.isSymbol .openBrace then openBraces (k + 1) ts
    else if t.isSymbol .closeBrace then
      if k = 0 then none else openBraces (k - 1) ts
    else openBraces k ts

/-- The braces among some tokens are balanced. -/
def BalancedBraces (ts : List Token) : Prop := openBraces 0 ts = some 0

instance (ts : List Token) : Decidable (BalancedBraces ts) :=
  inferInstanceAs (Decidable (openBraces 0 ts = some 0))

section Open

variable {t : Token} {ts us : List Token} {j k : Nat}

theorem openBraces_cons_opening (h : t.isSymbol .openBrace = true) :
    openBraces k (t :: ts) = openBraces (k + 1) ts := by
  rw [openBraces, if_pos h]

theorem openBraces_cons_closing (h : t.isSymbol .closeBrace = true) :
    openBraces (k + 1) (t :: ts) = openBraces k ts := by
  have hne : ¬t.isSymbol .openBrace = true := by
    unfold Token.isSymbol at h ⊢
    rw [of_decide_eq_true h]
    decide
  rw [openBraces, if_neg hne, if_pos h, if_neg (Nat.succ_ne_zero k), Nat.add_sub_cancel]

theorem openBraces_cons_other (h : t.isBrace = false) :
    openBraces k (t :: ts) = openBraces k ts := by
  have hopen : ¬t.isSymbol .openBrace = true := fun hs => by
    rw [Token.isBrace_of_isSymbol hs] at h
    cases h
  have hclose : ¬t.isSymbol .closeBrace = true := fun hs => by
    rw [Token.isBrace_of_isSymbol hs] at h
    cases h
  rw [openBraces, if_neg hopen, if_neg hclose]

theorem openBraces_append (k : Nat) (ts us : List Token) :
    openBraces k (ts ++ us) = (openBraces k ts).bind fun j => openBraces j us := by
  induction ts generalizing k with
  | nil => rfl
  | cons t ts ih =>
    rw [List.cons_append, openBraces, openBraces]
    split
    · exact ih _
    split
    · split
      · rfl
      · exact ih _
    · exact ih k

/-- More braces that are open in front stay open. -/
theorem openBraces_add (h : openBraces k ts = some j) (i : Nat) :
    openBraces (k + i) ts = some (j + i) := by
  induction ts generalizing k with
  | nil =>
    cases h
    rfl
  | cons t ts ih =>
    rw [openBraces] at h ⊢
    split at h
    · rename_i hopen
      rw [if_pos hopen, Nat.add_right_comm]
      exact ih h
    rename_i hopen
    rw [if_neg hopen]
    split at h
    · rename_i hclose
      rw [if_pos hclose]
      split at h
      · cases h
      · rename_i hk
        rw [if_neg (by omega), Nat.sub_add_comm (Nat.one_le_iff_ne_zero.2 hk)]
        exact ih h
    · rename_i hclose
      rw [if_neg hclose]
      exact ih h

end Open

/-- Where each loose stretch is balanced, so is everything. -/
theorem Braced.openBraces {k : Nat} {ts rest : List Token} (h : Braced k ts rest)
    (hloose : ∀ us vs, us <:+ ts → Loose us vs → ∃ taken, us = taken ++ vs ∧ BalancedBraces taken) :
    ∃ taken, ts = taken ++ rest ∧ openBraces k taken = some 0 := by
  induction h with
  | done ts => exact ⟨[], rfl, rfl⟩
  | @other k t ts rest plain _ ih =>
    obtain ⟨taken, rfl, hopen⟩ := ih fun us vs hus => hloose us vs (hus.trans (List.suffix_cons ..))
    exact ⟨t :: taken, rfl, (openBraces_cons_other plain).trans hopen⟩
  | @opening k t ts rest brace _ ih =>
    obtain ⟨taken, rfl, hopen⟩ := ih fun us vs hus => hloose us vs (hus.trans (List.suffix_cons ..))
    exact ⟨t :: taken, rfl, (openBraces_cons_opening brace).trans hopen⟩
  | @closing k t ts rest brace _ ih =>
    obtain ⟨taken, rfl, hopen⟩ := ih fun us vs hus => hloose us vs (hus.trans (List.suffix_cons ..))
    exact ⟨t :: taken, rfl, (openBraces_cons_closing brace).trans hopen⟩
  | @loose k ts us rest skip _ ih =>
    obtain ⟨front, rfl, hfront⟩ := hloose ts us (List.suffix_refl ts) skip
    obtain ⟨taken, rfl, hopen⟩ :=
      ih fun vs ws hvs => hloose vs ws (hvs.trans (List.suffix_append ..))
    -- what is open in front of the stretch stays open behind it
    have hlevel := openBraces_add hfront k
    rw [Nat.zero_add] at hlevel
    refine ⟨front ++ taken, (List.append_assoc ..).symm, ?_⟩
    rw [openBraces_append, hlevel]
    exact hopen

/-! ## The end of the file -/

/-- The braces of a file that parses are balanced, loose stretches aside: type parameters,
    constraints, and the parameters of methods and lambdas are skipped whatever braces stand in
    them. If the braces in each of these are balanced, so are those of the whole file. -/
theorem SourceTree.braces_balanced {file : SourceFile} {tree : SourceTree}
    (h : SourceTree.parse file = .ok tree) :
    ∃ tokens stop, scan file.text = .ok (tokens, stop) ∧ Braced 0 tokens [] ∧
      ((∀ us vs, us <:+ tokens → Loose us vs → ∃ taken, us = taken ++ vs ∧ BalancedBraces taken) →
        BalancedBraces tokens) := by
  unfold SourceTree.parse SourceTree.parseWithin SourceTree.parseBy at h
  split at h
  · cases h
  · rename_i tokens stop hscan
    dsimp only at h
    split at h
    · cases h
    · rename_i contents d nesting hcontents
      -- no token is the end, so reading goes on behind the last one
      have hinside : ∀ t ∈ tokens, t.isEof = false := by
        obtain ⟨x, rfl, -⟩ := LexedText.exists_of_scan hscan
        exact fun t ht => x.not_eof_of_mem_lexemes ht
      have hend : d.rest = [] := Parse.contentsWithin_end hinside (Nat.le_refl _) hcontents
      have hbraced : Braced 0 tokens d.rest := Parse.contentsWithin_closes hcontents
      rw [hend] at hbraced
      refine ⟨tokens, stop, hscan, hbraced, fun hloose => ?_⟩
      obtain ⟨taken, htaken, hopen⟩ := hbraced.openBraces hloose
      rw [List.append_nil] at htaken
      rw [htaken]
      exact hopen

/-! ## Files with loose stretches, and without -/

/-- Whether a token may be what makes a stretch loose. -/
def Token.loosens (t : Token) : Bool :=
  t.isAnySymbol [.less, .openParen, .arrow] || t.isWord "where"

/-- A cursor behind which no token makes a stretch loose. -/
def Cursor.Tight (c : Cursor) : Prop := ∀ t ∈ c.rest, t.loosens = false

namespace Cursor

variable {c d : Cursor}

theorem Tight.reaches (h : c.Tight) (hreach : c.Reaches d) : d.Tight := by
  obtain ⟨taken, htakes⟩ := hreach
  intro t ht
  apply h
  rw [htakes.rest]
  exact List.mem_append_right _ ht

theorem Tight.peek (h : c.Tight) : c.peek.loosens = false := by
  obtain ⟨last, rest, stop⟩ := c
  cases rest with
  | nil => rfl
  | cons t ts => exact h t List.mem_cons_self

theorem Tight.not_isSymbol (h : c.Tight) {s : Symbol} (hs : s ∈ [.less, .openParen, .arrow]) :
    c.peek.isSymbol s = false := by
  by_contra hsymbol
  have hany : c.peek.isAnySymbol [.less, .openParen, .arrow] = true :=
    List.any_eq_true.2 ⟨s, hs, (Bool.not_eq_false _).mp hsymbol⟩
  have hpeek := h.peek
  rw [Token.loosens, hany] at hpeek
  cases hpeek

theorem Tight.not_isWhere (h : c.Tight) : c.peek.isWord "where" = false :=
  (Bool.or_eq_false_iff.1 h.peek).2

end Cursor

namespace Parse

variable {c d : Cursor} {n m : Nesting}

theorem expect_tight (hc : c.Tight) {s : Symbol} (hs : s ∈ [.less, .openParen, .arrow])
    {t : Token} : ¬expect s c n = .ok t d m := by
  intro h
  obtain ⟨-, -, hsymbol⟩ := expect_eq_ok h
  rw [hc.not_isSymbol hs] at hsymbol
  cases hsymbol

/-- Type parameters start with an angle bracket. -/
theorem skipAngles_tight (hc : c.Tight) {u : Unit} : ¬skipAngles c n = .ok u d m := by
  intro h
  obtain ⟨_, _, _, hopening, -⟩ := bind_eq_ok h
  exact expect_tight hc (by decide) hopening

/-- The parameters of a lambda are in parentheses or stand in front of an arrow. -/
theorem lambdaParameters_tight (hc : c.Tight) {names : List String} :
    ¬lambdaParameters? c n = .ok (some names) d m := by
  intro h
  obtain ⟨_, _, _, hstart, h⟩ := bind_eq_ok h
  cases hstart
  obtain ⟨_, _, _, hahead, h⟩ := bind_eq_ok h
  cases hahead
  obtain ⟨_, _, _, hasync, h⟩ := bind_eq_ok h
  cases hasync
  extract_lets tail at h
  -- with or without `async` in front, neither parentheses nor an arrow can follow
  have htail : ∀ c' n', c'.Tight → ¬tail () c' n' = .ok (some names) d m := by
    intro c' n' hc' h
    obtain ⟨_, _, _, hcursor, h⟩ := bind_eq_ok h
    cases hcursor
    rw [← c'.peek_next, (hc'.reaches (Cursor.reaches_next c')).not_isSymbol (by decide),
      hc'.not_isSymbol (by decide), Bool.and_false, Bool.false_and] at h
    obtain ⟨_, _, _, hrewind, h⟩ := bind_eq_ok h
    cases hrewind
    cases h
  split at h
  · obtain ⟨_, _, _, hadvance, h⟩ := bind_eq_ok h
    cases hadvance
    exact htail _ _ (hc.reaches (Cursor.reaches_next c)) h
  · exact htail c n hc h

end Parse

/-- Where no token makes a stretch loose, no stretch is. -/
theorem Loose.eq_of_tight {us vs : List Token} (h : Loose us vs)
    (htight : ∀ t ∈ us, t.loosens = false) : vs = us := by
  cases h with
  | @ofClass c d n m keyword name skip =>
    have hc : c.Tight := htight
    have hreach := (Cursor.reaches_next c).trans (Cursor.reaches_next c.next)
    exact absurd skip (Parse.skipAngles_tight (hc.reaches hreach))
  | @ofMember c c₁ c₂ c₃ d n n₁ n₂ n₃ m type first name typed named path skip =>
    have hc : c.Tight := htight
    have hreach := ((Parse.Forward.reaches typed).trans (Parse.Forward.reaches named)).trans
      (Parse.Forward.reaches path)
    exact absurd skip (Parse.skipAngles_tight (hc.reaches hreach))
  | @constraints c d n m skip =>
    have hc : c.Tight := htight
    obtain ⟨_, _, _, hwhere, skip⟩ := Parse.bind_eq_ok skip
    cases hwhere
    rw [hc.not_isWhere] at skip
    cases skip
    rfl
  | @parameters c d n m levels ps read =>
    have hc : c.Tight := htight
    obtain ⟨_, _, _, hopening, -⟩ := Parse.bind_eq_ok read
    exact absurd hopening (Parse.expect_tight hc (by decide))
  | @lambda c d n m names read =>
    have hc : c.Tight := htight
    exact absurd read (Parse.lambdaParameters_tight hc)

/-- Files in which a brace goes unnoticed: in the type parameters of a class and of a method, in
    constraints, in a default value, and in the parameters of a lambda. -/
def looseTexts : List String :=
  ["class C<\x7d> \x7b \x7d", "class C \x7b void M<\x7b>() \x7b \x7d \x7d",
    "class C where \x7d \x7b \x7d", "class C \x7b void M(int a = \x7d); \x7d",
    "class C \x7b X f = (\x7b) => 1; \x7d"]

/-- A file in which no stretch is loose. -/
def tightText : String := "class C \x7b X f = new X \x7b a = new[] \x7b 1 \x7d \x7d; \x7d"

theorem SourceTree.braces_balanced_loose :
    (∀ text ∈ looseTexts, ∃ tree tokens stop, SourceTree.parse { name := "a.cs", text } = .ok tree ∧
      scan text = .ok (tokens, stop) ∧ Braced 0 tokens [] ∧ ¬BalancedBraces tokens) ∧
    ∃ tree tokens stop, SourceTree.parse { name := "a.cs", text := tightText } = .ok tree ∧
      scan tightText = .ok (tokens, stop) ∧ BalancedBraces tokens := by
  constructor
  · intro text htext
    have hparse : ∀ text ∈ looseTexts, (SourceTree.parse { name := "a.cs", text }).isOk = true := by
      decide +kernel
    have hloose : ∀ text ∈ looseTexts, (scan text).toOption.map
        (fun scanned => decide (BalancedBraces scanned.1)) = some false := by
      decide +kernel
    cases htree : SourceTree.parse { name := "a.cs", text } with
    | error e =>
      have hok := hparse text htext
      rw [htree] at hok
      cases hok
    | ok tree =>
      obtain ⟨tokens, stop, hscan, hbraced, -⟩ := SourceTree.braces_balanced htree
      have hunbalanced := hloose text htext
      rw [show scan text = .ok (tokens, stop) from hscan] at hunbalanced
      exact ⟨tree, tokens, stop, rfl, hscan, hbraced,
        of_decide_eq_false (Option.some.inj hunbalanced)⟩
  · have hparse : (SourceTree.parse { name := "a.cs", text := tightText }).isOk = true := by
      decide +kernel
    have htight : (scan tightText).toOption.map
        (fun scanned => decide (∀ t ∈ scanned.1, t.loosens = false)) = some true := by
      decide +kernel
    cases htree : SourceTree.parse { name := "a.cs", text := tightText } with
    | error e =>
      rw [htree] at hparse
      cases hparse
    | ok tree =>
      obtain ⟨tokens, stop, hscan, -, hbalanced⟩ := SourceTree.braces_balanced htree
      rw [show scan tightText = .ok (tokens, stop) from hscan] at htight
      have hplain := of_decide_eq_true (Option.some.inj htight)
      refine ⟨tree, tokens, stop, rfl, hscan, hbalanced fun us vs hus hloose => ⟨[], ?_, rfl⟩⟩
      exact (hloose.eq_of_tight fun t ht => hplain t (hus.subset ht)).symm

end GatewayPolicy
