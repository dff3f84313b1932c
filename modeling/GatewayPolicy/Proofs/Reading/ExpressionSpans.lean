import GatewayPolicy.Proofs.Reading.Bodies
import GatewayPolicy.Proofs.Reading.Fragments

/-! # Places of expressions

  Every expression of a file is laid over tokens of the file, so its place starts where a
  token starts and stops where the same or a later token stops. The expressions directly
  inside it lie in its place, one behind the other in the order in which they are written.

  - `Expr.Nested` says this of one expression.
  - `Expr.LaidOn.nested` has it from the tokens that an expression is laid over.
  - `SourceTree.expressions_nested` is the result.
-/

namespace GatewayPolicy

/-- An expression starts with one of the tokens and stops with the same or a later one, and
    its parts lie in it, one behind the other. -/
structure Expr.Nested (tokens : List Token) (e : Expr) : Prop where
  tokens : ∃ i k, IsStretch tokens i k e.span
  filled : e.span.start < e.span.stop
  inside : ∀ part ∈ e.parts, e.span.start ≤ part.span.start ∧ part.span.stop ≤ e.span.stop
  increasing : e.parts.Pairwise fun a b => a.span.stop ≤ b.span.start

/-! ## Stretches of tokens in order -/

namespace IsStretch

variable {ts : List Token} {i j k l : Nat} {r s : Span}

/-- A stretch that ends before another begins stops before the other starts. -/
theorem stop_le_start (hts : InOrder ts) (hr : IsStretch ts i j r) (hs : IsStretch ts k l s)
    (hjk : j < k) : r.stop ≤ s.start := by
  obtain ⟨-, t, u, -, hu, rfl⟩ := hr
  obtain ⟨-, v, w, hv, -, rfl⟩ := hs
  obtain ⟨hj, rfl⟩ := List.getElem?_eq_some_iff.1 hu
  obtain ⟨hk, rfl⟩ := List.getElem?_eq_some_iff.1 hv
  exact List.pairwise_iff_getElem.1 hts.behind j k hj hk hjk

/-- A stretch of some of the tokens of another lies in it. -/
theorem bounds (hts : InOrder ts) (hr : IsStretch ts i j r) (hs : IsStretch ts k l s)
    (hik : i ≤ k) (hlj : l ≤ j) : r.start ≤ s.start ∧ s.stop ≤ r.stop := by
  obtain ⟨-, t, u, ht, hu, rfl⟩ := hr
  obtain ⟨-, v, w, hv, hw, rfl⟩ := hs
  exact ⟨(start_le_iff hts.before ht hv).2 hik, stop_le_of_le hts.before hw hu hlj⟩

theorem filled (hts : InOrder ts) (hr : IsStretch ts i j r) : r.start < r.stop := by
  obtain ⟨hij, t, u, ht, hu, rfl⟩ := hr
  have hfilled := hts.filled t (List.mem_of_getElem? ht)
  have hstop := stop_le_of_le hts.before ht hu hij
  show t.span.start < u.span.stop
  omega

end IsStretch

/-! ## Laid expressions -/

namespace Expr

variable {ts : List Token} {i j k : Nat} {e : Expr} {es : List Expr}

theorem LaidWithin.mem (h : LaidWithin ts i j es) {x : Expr} (hx : x ∈ es) :
    ∃ first last, i ≤ first ∧ last < j ∧ x.LaidOn ts first last := by
  induction es generalizing i with
  | nil => cases hx
  | cons e es ih =>
    cases h with
    | cons hle head tail =>
      rcases List.mem_cons.1 hx with rfl | hx
      · exact ⟨_, _, hle, tail.le, head⟩
      · obtain ⟨first, last, hfirst, hlast, hlaid⟩ := ih tail hx
        have hhead := head.le
        exact ⟨first, last, by omega, hlast, hlaid⟩

theorem LaidWithin.increasing (hts : InOrder ts) (h : LaidWithin ts i j es) :
    es.Pairwise fun a b => a.span.stop ≤ b.span.start := by
  induction es generalizing i with
  | nil => exact .nil
  | cons e es ih =>
    cases h with
    | cons hle head tail =>
      refine .cons ?_ (ih tail)
      intro x hx
      obtain ⟨first, last, hfirst, -, hlaid⟩ := tail.mem hx
      exact (head.span.isStretch hts.before).stop_le_start hts (hlaid.span.isStretch hts.before)
        hfirst

theorem LaidOn.parts (h : e.LaidOn ts i k) : LaidWithin ts i (k + 1) e.parts := by
  cases h
  assumption

theorem LaidOn.nested (hts : InOrder ts) (h : e.LaidOn ts i k) : e.Nested ts where
  tokens := ⟨i, k, h.span.isStretch hts.before⟩
  filled := (h.span.isStretch hts.before).filled hts
  inside part hpart := by
    obtain ⟨first, last, hfirst, hlast, hlaid⟩ := h.parts.mem hpart
    exact (h.span.isStretch hts.before).bounds hts (hlaid.span.isStretch hts.before) hfirst
      (by omega)
  increasing := h.parts.increasing hts

end Expr

/-! ## Files -/

/-- An expression is laid over some of the tokens. -/
def Expr.Laid (ts : List Token) (e : Expr) : Prop := ∃ first last, e.LaidOn ts first last

theorem Expr.LaidOn.laid {ts : List Token} {i k : Nat} {e : Expr} (h : e.LaidOn ts i k) :
    (Fragment.expression e).Throughout (Expr.Laid ts) := by
  intro x hx
  -- laid expressions have laid parts, so this holds of all that is held
  suffices hheld : ∀ y, (Fragment.expression e).Holds y → ∃ x, y = .expression x ∧ x.Laid ts by
    obtain ⟨_, heq, hlaid⟩ := hheld _ hx
    cases heq
    exact hlaid
  intro y hy
  induction hy with
  | refl => exact ⟨e, rfl, i, k, h⟩
  | tail _ hpart ih =>
    obtain ⟨x, rfl, first, last, hlaid⟩ := ih
    obtain ⟨part, hmem, rfl⟩ := List.mem_map.1 hpart
    obtain ⟨first', last', -, -, hlaid'⟩ := hlaid.parts.mem hmem
    exact ⟨part, rfl, first', last', hlaid'⟩

theorem fragmentInvariant_laid (ts : List Token) (stop : Span) :
    FragmentInvariant (.start ts stop) fun _ => Fragment.Throughout (Expr.Laid ts) where
  expression {levels c d n m e} hstart hread := by
    obtain ⟨taken, htakes⟩ := hstart
    have hc := (Cursor.standsAt_start ts stop).takes htakes
    obtain ⟨j, -, hbetween⟩ := (Grammar.places_within ts stop levels).assignment hc hread
    obtain ⟨k, -, hlaid⟩ := hbetween.laid
    exact hlaid.laid
  body {levels c d n m e} hstart hread := by
    obtain ⟨taken, htakes⟩ := hstart
    have hc := (Cursor.standsAt_start ts stop).takes htakes
    obtain ⟨arrow, c', _, harrow, hread⟩ := Parse.bind_eq_ok hread
    obtain ⟨-, hc', -⟩ := hc.expect harrow
    obtain ⟨j, -, -, hbody⟩ := Parse.expressionBody_places
      (Grammar.places_within ts stop levels) hc' hread
    rcases hbody with ⟨-, hspan⟩ | hbetween
    · -- a body of no tokens has a place and no parts
      rcases Parse.expressionBody_eq hread with ⟨_, hread⟩ | ⟨span, rfl⟩
      · obtain ⟨j, -, hbetween⟩ := (Grammar.places_within ts stop levels).assignment hc' hread
        obtain ⟨k, -, hlaid⟩ := hbetween.laid
        exact hlaid.laid
      · have hparts : Expr.LaidWithin ts _ _ (Expr.unparsed span).parts :=
          .nil (hspan.le.trans (Nat.le_succ _))
        exact (Expr.LaidOn.intro hspan hparts).laid
    · obtain ⟨k, -, hlaid⟩ := hbetween.laid
      exact hlaid.laid
  statement := Fragment.throughout_statement
  malformed := Fragment.throughout_statement (List.forall_mem_nil _)

/-- Expressions in a file that parses nest: each starts with a token and stops with the same
    or a later one, and the expressions directly inside it lie in it, one behind the other. -/
theorem SourceTree.expressions_nested {file : SourceFile} {tree : SourceTree}
    (hfits : file.text.utf8ByteSize < UInt32.size) (h : SourceTree.parse file = .ok tree) :
    ∃ tokens stop, scan file.text = .ok (tokens, stop) ∧
      ∀ e, tree.Has (.expression e) → e.Nested tokens := by
  obtain ⟨tokens, stop, hscan, -⟩ := SourceTree.declared_read h
  refine ⟨tokens, stop, hscan, ?_⟩
  rintro e ⟨x, hx, he⟩
  obtain ⟨first, last, hlaid⟩ :=
    (fragmentInvariant_laid tokens (stop.span [])).of_parse h hscan x hx e he
  exact hlaid.nested (InOrder.of_scan hfits hscan).1

/-- A field whose value is a call with a choice among its arguments. -/
def choiceFile : SourceFile where
  name := "a.cs"
  text := "class C \x7b int x = f(a ? b : c, 1); \x7d"

/-- Where the expressions directly inside an expression start and stop. -/
def Fragment.partPlaces : Fragment → List (Nat × Nat)
  | expression e => e.parts.map fun part => (part.span.start, part.span.stop)
  | statement _ => []

theorem SourceTree.expressions_nested_choice :
    ∃ tree tokens stop, SourceTree.parse choiceFile = .ok tree ∧
      scan choiceFile.text = .ok (tokens, stop) ∧
      tree.fragments.map Fragment.partPlaces = [[(18, 19), (20, 29), (31, 32)]] ∧
      ∀ e, tree.Has (.expression e) → e.Nested tokens := by
  have hplaces : (SourceTree.parse choiceFile).toOption.map
      (fun tree => tree.fragments.map Fragment.partPlaces) =
        some [[(18, 19), (20, 29), (31, 32)]] := by
    decide +kernel
  cases htree : SourceTree.parse choiceFile with
  | error e =>
    rw [htree] at hplaces
    cases hplaces
  | ok tree =>
    obtain ⟨tokens, stop, hscan, hnested⟩ :=
      SourceTree.expressions_nested (by decide +kernel) htree
    rw [htree] at hplaces
    exact ⟨tree, tokens, stop, rfl, hscan, Option.some.inj hplaces, hnested⟩

end GatewayPolicy
