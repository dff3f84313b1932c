import GatewayPolicy.Proofs.Reading.BareBraces
import GatewayPolicy.Proofs.Reading.ExpressionSpans
import GatewayPolicy.Proofs.Reading.Layers
import GatewayPolicy.Proofs.Reading.Limit

/-! # How deep code may nest

  Blocks, parentheses, argument and index lists, elements and initializers may stand inside
  each other only so deep, and a file that goes deeper is refused. There is one exception.
  Braces in an initializer may hold braces again without a type in front of them, and such
  braces take no level, so nothing bounds how many of them stand inside each other.

  - `Fragment.Path` is a path down into a fragment, with the delimiters on it that count.
  - `Fragment.isCapped` says which delimiters the limit counts: all but those of expressions
    that reach from a brace on.
  - `Fragment.Shallow` is the invariant, `Expr.layers_shallow` its step.
  - `SourceTree.nesting_capped` is the result.
-/

namespace GatewayPolicy

/-! ## Delimiters -/

namespace Fragment

/-- The fragments directly inside a fragment that stand in no delimiters of its own. -/
def outer : Fragment → List Fragment
  | statement (.block ..) => []
  | statement s => s.parts
  | expression e => e.outer.map .expression

/-- The fragments directly inside a fragment, in delimiters of its own. -/
def inner : Fragment → List Fragment
  | statement (.block statements _) => statements.map .statement
  | statement _ => []
  | expression e => e.inner.map .expression

/-- Whether a fragment has delimiters of its own: the braces of a block, the parentheses
    around an expression, an argument or index list, the elements of an array, or what follows
    the type of a new object. -/
def isDelimited : Fragment → Bool
  | statement (.block ..) => true
  | expression (.paren ..) | expression (.call ..) | expression (.index ..) => true
  | expression (.array ..) | expression (.object ..) => true
  | statement _ | expression _ => false

/-- Whether a fragment is an expression that reaches from an opening brace to another token. -/
def isBare (tokens : List Token) : Fragment → Bool
  | statement _ => false
  | expression e => tokens.any fun t =>
      t.isSymbol .openBrace && tokens.any fun u => e.span == t.span.cover u.span

/-- Whether the limit counts the delimiters of a fragment. -/
def isCapped (tokens : List Token) (x : Fragment) : Bool := x.isDelimited && !x.isBare tokens

/-- A path down from one fragment to another, and how many of the delimiters on it count,
    those of the last fragment included. -/
inductive Path (counts : Fragment → Bool) : Nat → Fragment → Fragment → Prop where
  | here (x : Fragment) : Path counts (counts x).toNat x x
  | outside {k : Nat} {x y z : Fragment} (part : y ∈ x.outer) (path : Path counts k y z) :
      Path counts k x z
  | inside {k : Nat} {x y z : Fragment} (part : y ∈ x.inner) (path : Path counts k y z) :
      Path counts (k + (counts x).toNat) x z

/-- No path into a fragment has more delimiters that count than so many. -/
def Shallow (counts : Fragment → Bool) (levels : Nat) (x : Fragment) : Prop :=
  ∀ k y, Path counts k x y → k ≤ levels

section Shallow

variable {counts : Fragment → Bool} {levels d : Nat} {x : Fragment}

theorem Shallow.mono (h : x.Shallow counts levels) : x.Shallow counts (levels + 1) :=
  fun k y path => (h k y path).trans (Nat.le_succ _)

/-- A fragment whose own delimiters take the levels that its inner parts have less. -/
theorem shallow_of_parts (hown : (counts x).toNat + d ≤ levels)
    (houter : ∀ y ∈ x.outer, y.Shallow counts levels)
    (hinner : ∀ y ∈ x.inner, y.Shallow counts d) : x.Shallow counts levels := by
  intro k y path
  cases path with
  | here => omega
  | outside part path => exact houter _ part k _ path
  | inside part path =>
    have hle := hinner _ part _ _ path
    omega

theorem shallow_succ (houter : ∀ y ∈ x.outer, y.Shallow counts (levels + 1))
    (hinner : ∀ y ∈ x.inner, y.Shallow counts levels) : x.Shallow counts (levels + 1) := by
  refine shallow_of_parts ?_ houter hinner
  have hle := Bool.toNat_le (counts x)
  omega

theorem shallow_leaf (hcounts : counts x = false) (hparts : x.parts = [])
    (houter : x.outer ⊆ x.parts) (hinner : x.inner ⊆ x.parts) : x.Shallow counts levels := by
  rw [hparts] at houter hinner
  refine shallow_of_parts (d := levels) (by simp [hcounts]) ?_ ?_
  · intro y hy
    cases houter hy
  · intro y hy
    cases hinner hy

end Shallow

end Fragment

/-! ## Levels and delimiters -/

/-- Braces that stand for an expression reach from one to the other. -/
theorem Fragment.isBare_braces {ts : List Token} {stop : Span} {c d : Cursor}
    (hstart : (Cursor.start ts stop).Reaches c) (hpass : c.Passes d)
    (hbrace : c.peek.isSymbol .openBrace = true) (braces : Initializer) :
    (Fragment.expression (.object none none braces (c.peek.span.cover d.last))).isBare ts =
      true := by
  obtain ⟨front, hfront⟩ := hstart
  have hc := (Cursor.standsAt_start ts stop).takes hfront
  obtain ⟨ht, -⟩ := hc.next (Token.not_eof_of_isSymbol hbrace)
  obtain ⟨taken, hne, htakes⟩ := hpass
  obtain ⟨k, hk⟩ := Nat.exists_eq_add_one.2 (List.length_pos_of_ne_nil hne)
  have hd := hc.takes htakes
  rw [hk, ← Nat.add_assoc] at hd
  obtain ⟨u, hu, hlast⟩ := hd.last_eq
  refine List.any_eq_true.2 ⟨c.peek, List.mem_of_getElem? ht, ?_⟩
  rw [hbrace, Bool.true_and]
  refine List.any_eq_true.2 ⟨u, List.mem_of_getElem? hu, ?_⟩
  rw [← hlast]
  exact beq_self_eq_true _

/-- One more level allows one more pair of delimiters around the same code. -/
theorem Expr.layers_shallow (ts : List Token) (stop : Span) (levels : Nat) :
    Expr.Layers (.start ts stop)
      (fun e => (Fragment.expression e).Shallow (Fragment.isCapped ts) levels)
      fun e => (Fragment.expression e).Shallow (Fragment.isCapped ts) (levels + 1) where
  mono h := h.mono
  node _ houter hinner := by
    refine Fragment.shallow_succ ?_ ?_
    · intro y hy
      obtain ⟨x, hx, rfl⟩ := List.mem_map.1 hy
      exact houter x hx
    · intro y hy
      obtain ⟨x, hx, rfl⟩ := List.mem_map.1 hy
      exact hinner x hx
  bare {c d braces} hstart hpass hbrace hparts := by
    -- such braces are not counted, so their entries need as many levels as they do
    have hbare := Fragment.isBare_braces hstart hpass hbrace braces
    refine Fragment.shallow_of_parts (d := levels) ?_ ?_ ?_
    · simp [Fragment.isCapped, hbare]
    · exact List.forall_mem_nil _
    · intro y hy
      obtain ⟨x, hx, rfl⟩ := List.mem_map.1 hy
      exact hparts x hx

theorem fragmentInvariant_shallow (ts : List Token) (stop : Span) :
    FragmentInvariant (.start ts stop) (Fragment.Shallow (Fragment.isCapped ts)) := by
  refine .of_layers (Expr.layers_shallow ts stop) ?_ ?_ ?_
  · intro levels span
    exact Fragment.shallow_leaf rfl rfl (List.nil_subset _) (List.nil_subset _)
  · -- of the statements only a block has its parts in delimiters, and all use up a level
    intro levels s hparts
    refine Fragment.shallow_succ ?_ ?_
    · intro y hy
      cases s with
      | block _ _ => cases hy
      | _ => exact (hparts y hy).mono
    · intro y hy
      cases s with
      | block statements span => exact hparts y hy
      | _ => cases hy
  · intro levels fault span
    exact Fragment.shallow_leaf rfl rfl (List.nil_subset _) (List.nil_subset _)

/-- Within a limit, no path has more delimiters that count than the limit. -/
theorem SourceTree.path_le {limit : Nat} {file : SourceFile} {tree : SourceTree}
    {tokens : List Token} {stop : Place} (h : SourceTree.parseWithin limit file = .ok tree)
    (hscan : scan file.text = .ok (tokens, stop)) {k : Nat} {x y : Fragment}
    (hx : x ∈ tree.fragments) (path : Fragment.Path (Fragment.isCapped tokens) k x y) :
    k ≤ limit :=
  (fragmentInvariant_shallow tokens (stop.span [])).of_parse h hscan x hx k y path

/-! ## Braces that nothing counts -/

/-- Down into braces there is a path with all of them on it. -/
theorem Initializer.Nests.path {n : Nat} {braces : Initializer} (h : braces.Nests n)
    (type : Option String) (span : Span) :
    ∃ y, Fragment.Path Fragment.isDelimited (n + 1)
      (.expression (.object type none braces span)) y := by
  induction n generalizing braces type span with
  | zero => exact ⟨_, Fragment.Path.here (.expression (.object type none braces span))⟩
  | succ n ih =>
    obtain ⟨inner, innerSpan, rfl, hinner⟩ := h
    obtain ⟨y, path⟩ := ih hinner none innerSpan
    have hpart : Fragment.expression (.object none none inner innerSpan) ∈ Fragment.inner
        (.expression (.object type none (.elements [.object none none inner innerSpan]) span)) :=
      List.mem_singleton_self _
    exact ⟨y, .inside hpart path⟩

/-- Where two levels are allowed, braces may stand inside each other to any depth. -/
theorem SourceTree.exists_path_braces (limit n : Nat) :
    ∃ file tree x y, SourceTree.parseWithin (limit + 2) file = .ok tree ∧ x ∈ tree.fragments ∧
      Fragment.Path Fragment.isDelimited (n + 1) x y := by
  obtain ⟨tree, c, m, hparse, hclasses, hmembers, hm⟩ :=
    SourceTree.parseWithin_bracesText limit n "a.cs"
  obtain ⟨field, e, rfl, hvalue, braces, span, rfl, hnests⟩ := hm
  obtain ⟨y, path⟩ := hnests.path (some "X") span
  refine ⟨_, tree, _, y, hparse, ?_, path⟩
  simp [fragments, hclasses, ClassDecl.declared, hmembers, Member.declared, Declared.fragments,
    hvalue]

/-! ## The limit -/

/-- Nesting is capped, bare braces aside. In a file that is read, no path goes through more
    delimiters that count than the limit allows, and the limit is 128. A file with more of them
    on a path is refused, and the limit is the reason. Braces without a type in front of them
    do not count: with two levels they may stand inside each other to any depth. -/
theorem SourceTree.nesting_capped (limit : Nat) :
    SourceTree.parse = SourceTree.parseWithin 128 ∧
    (∀ file tree tokens stop, SourceTree.parseWithin limit file = .ok tree →
      scan file.text = .ok (tokens, stop) → ∀ x ∈ tree.fragments, ∀ k y,
        Fragment.Path (Fragment.isCapped tokens) k x y → k ≤ limit) ∧
    (∀ file tree tokens stop larger, SourceTree.parseWithin larger file = .ok tree →
      scan file.text = .ok (tokens, stop) → ∀ x ∈ tree.fragments, ∀ k y,
        Fragment.Path (Fragment.isCapped tokens) k x y → limit < k →
        (∃ e, SourceTree.parseWithin limit file = .error e) ∧
          SourceTree.ReachesLimit limit file) ∧
    (2 ≤ limit → ∀ n, ∃ file tree x y, SourceTree.parseWithin limit file = .ok tree ∧
      x ∈ tree.fragments ∧ Fragment.Path Fragment.isDelimited (n + 1) x y) := by
  refine ⟨rfl, ?_, ?_, ?_⟩
  · intro file tree tokens stop hparse hscan x hx k y path
    exact SourceTree.path_le hparse hscan hx path
  · intro file tree tokens stop larger hparse hscan x hx k y path hdeep
    have hlarger : limit < larger := hdeep.trans_le (SourceTree.path_le hparse hscan hx path)
    obtain ⟨more, rfl⟩ := Nat.exists_eq_add_of_le hlarger.le
    -- a tree of the same file within the limit would be the same one, and not so deep
    have hrefused : ∃ e, SourceTree.parseWithin limit file = .error e := by
      cases hlimit : SourceTree.parseWithin limit file with
      | error e => exact ⟨e, rfl⟩
      | ok small =>
        rw [SourceTree.parseWithin, CodeGrammar.within_add] at hparse
        have hsame : SourceTree.parseBy ((CodeGrammar.within more).below limit) (limit + more)
            file = .ok small := SourceTree.parseBy_loosens hlimit
        rw [hparse] at hsame
        cases hsame
        exact absurd (SourceTree.path_le hlimit hscan hx path) (Nat.not_le.2 hdeep)
    refine ⟨hrefused, .within more, limit + more, ?_⟩
    obtain ⟨e, he⟩ := hrefused
    rw [← CodeGrammar.within_add, ← SourceTree.parseWithin, hparse, he]
    intro hsame
    cases hsame
  · intro hlimit n
    obtain ⟨limit, rfl⟩ := Nat.exists_eq_add_of_le' hlimit
    exact SourceTree.exists_path_braces limit n

/-- A variable whose value has four pairs of parentheses around it. -/
def parenthesesFile : SourceFile where
  name := "a.cs"
  text := "class C\x7bvoid M()\x7bvar x=((((1))));\x7d\x7d"

/-- How many of the parentheses around an expression count, and whether it counts itself. -/
def Expr.parentheses (counts : Fragment → Bool) : Expr → Nat
  | .paren inside span =>
    inside.parentheses counts + (counts (.expression (.paren inside span))).toNat
  | e => (counts (.expression e)).toNat

/-- How many of the parentheses around the value of a variable count. -/
def Fragment.parentheses (counts : Fragment → Bool) : Fragment → Nat
  | statement (.declaration _ _ (some e) _) => e.parentheses counts
  | x => (counts x).toNat

theorem Expr.path_parentheses (counts : Fragment → Bool) (e : Expr) :
    ∃ y, Fragment.Path counts (e.parentheses counts) (.expression e) y := by
  fun_induction Expr.parentheses counts e with
  | case1 inside span ih =>
    obtain ⟨y, path⟩ := ih
    have hpart : Fragment.expression inside ∈ Fragment.inner (.expression (.paren inside span)) :=
      List.mem_singleton_self _
    exact ⟨y, .inside hpart path⟩
  | case2 e _ => exact ⟨_, .here _⟩

theorem Fragment.path_parentheses (counts : Fragment → Bool) (x : Fragment) :
    ∃ y, Path counts (x.parentheses counts) x y := by
  fun_cases Fragment.parentheses counts x with
  | case1 type name e span =>
    obtain ⟨y, path⟩ := Expr.path_parentheses counts e
    have hpart : expression e ∈ outer (statement (.declaration type name (some e) span)) :=
      List.mem_singleton_self _
    exact ⟨y, .outside hpart path⟩
  | case2 x _ => exact ⟨_, .here _⟩

/-- With three levels the four pairs of parentheses are too deep, and the file is refused. The
    error is another one: the declaration is given up and read once more as an expression. In
    braces, 200 pairs are not too deep. -/
theorem SourceTree.nesting_capped_parentheses :
    (∃ tree tokens stop x y e, SourceTree.parseWithin 16 parenthesesFile = .ok tree ∧
      scan parenthesesFile.text = .ok (tokens, stop) ∧ x ∈ tree.fragments ∧
      Fragment.Path (Fragment.isCapped tokens) 4 x y ∧ 4 ≤ 16 ∧
      SourceTree.parseWithin 3 parenthesesFile = .error e ∧
      e.fault = .structural (.expected (.symbol .semicolon) (some "x")) ∧
      SourceTree.ReachesLimit 3 parenthesesFile) ∧
    ∃ file tree x y, SourceTree.parseWithin 3 file = .ok tree ∧ x ∈ tree.fragments ∧
      Fragment.Path Fragment.isDelimited 200 x y := by
  refine ⟨?_, (SourceTree.nesting_capped 3).2.2.2 (by decide) 199⟩
  have hdepth : (SourceTree.parseWithin 16 parenthesesFile).toOption.bind (fun tree =>
      (scan parenthesesFile.text).toOption.map fun scanned =>
        tree.fragments.map (Fragment.parentheses (Fragment.isCapped scanned.1))) = some [4] := by
    decide +kernel
  have hfault : (match SourceTree.parseWithin 3 parenthesesFile with
      | .ok _ => none
      | .error e => some e.fault) =
        some (.structural (.expected (.symbol .semicolon) (some "x"))) := by
    decide +kernel
  cases hparse : SourceTree.parseWithin 16 parenthesesFile with
  | error _ =>
    rw [hparse] at hdepth
    cases hdepth
  | ok tree =>
    cases hscan : scan parenthesesFile.text with
    | error _ =>
      rw [hscan, hparse] at hdepth
      cases hdepth
    | ok scanned =>
      obtain ⟨tokens, stop⟩ := scanned
      rw [hscan, hparse] at hdepth
      obtain ⟨x, hfragments, hx⟩ := List.map_eq_singleton_iff.1 (Option.some.inj hdepth)
      obtain ⟨y, path⟩ := Fragment.path_parentheses (Fragment.isCapped tokens) x
      rw [hx] at path
      have hmem : x ∈ tree.fragments := hfragments ▸ List.mem_singleton_self x
      have hle := (SourceTree.nesting_capped 16).2.1 _ tree tokens stop hparse hscan x hmem 4 y path
      obtain ⟨⟨e, hrefused⟩, hreaches⟩ := (SourceTree.nesting_capped 3).2.2.1 _ tree tokens stop 16
        hparse hscan x hmem 4 y path (by decide)
      rw [hrefused] at hfault
      exact ⟨tree, tokens, stop, x, y, e, rfl, rfl, hmem, path, hle, hrefused,
        Option.some.inj hfault, hreaches⟩

end GatewayPolicy
