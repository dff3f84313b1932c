import GatewayPolicy.Proofs.Reading.Layers

/-! # Operators of a file

  The operators of every expression in a file are grouped by how tightly they bind, and a
  sequence of operands ends where an operator follows that binds less tightly than asked for.

  - `SourceTree.operators_grouped` is the result.
-/

namespace GatewayPolicy

/-- An expression whose operators are grouped, from its parts. -/
theorem Expr.layers_grouped (start : Cursor) :
    Expr.Layers start (fun e => (Fragment.expression e).Throughout Expr.Grouped)
      fun e => (Fragment.expression e).Throughout Expr.Grouped where
  mono := id
  node {e} hgrouped houter hinner := by
    refine Fragment.throughout_expression hgrouped ?_
    rw [Expr.parts]
    exact List.forall_mem_append.2 ⟨houter, hinner⟩
  bare _ _ _ hparts := Fragment.throughout_expression trivial hparts

theorem fragmentInvariant_grouped (start : Cursor) :
    FragmentInvariant start fun _ => Fragment.Throughout Expr.Grouped :=
  .of_layers (fun _ => Expr.layers_grouped start)
    (fun _ _ => Fragment.throughout_expression trivial (List.forall_mem_nil _))
    Fragment.throughout_statement (Fragment.throughout_statement (List.forall_mem_nil _))

/-- In a file that parses, the operand on the left of an operator binds at least as tightly,
    unless it is a test for a type, and the one on the right more tightly; for `??` it is the
    other way round. Operands that are joined by operators from some precedence on are joined
    by no other one, and none of these follows them. -/
theorem SourceTree.operators_grouped :
    (∀ {file : SourceFile} {tree : SourceTree}, SourceTree.parse file = .ok tree →
      ∀ e, tree.Has (.expression e) → e.Grouped) ∧
    ∀ {levels least : Nat} {c d : Cursor} {n m : Nesting} {e : Expr},
      Parse.operands (.within levels) least c n = .ok e d m →
        (∀ op ∈ e.operator?, least ≤ op.precedence) ∧ d.Below least := by
  constructor
  · rintro file tree h e ⟨x, hx, he⟩
    obtain ⟨tokens, stop, hscan, -⟩ := SourceTree.declared_read h
    exact (fragmentInvariant_grouped _).of_parse h hscan x hx e he
  · intro levels least c d n m e h
    have hlayers := Expr.layers_grouped c
    obtain ⟨hbelow, -, hleast⟩ := Parse.operands_makes hlayers
      (Grammar.makes_within (fun _ => hlayers) levels) (.refl c) h
    exact ⟨hleast, hbelow⟩

/-- Operators that group to the left, that bind more tightly and that group to the right. -/
def operatorFile : SourceFile where
  name := "a.cs"
  text := "class C \x7b int x = a - b - c * d ?? e ?? f; \x7d"

/-- The operators of an expression with parentheses around their operands. -/
def Expr.grouping : Expr → String
  | .binary op left right _ => "(" ++ left.grouping ++ op.text ++ right.grouping ++ ")"
  | .name text _ => text
  | _ => "…"

def Fragment.grouping : Fragment → String
  | expression e => e.grouping
  | statement _ => ""

theorem SourceTree.operators_grouped_climbing :
    (∃ tree, SourceTree.parse operatorFile = .ok tree ∧
      tree.fragments.map Fragment.grouping = ["(((a-b)-(c*d))??(e??f))"] ∧
      ∀ e, tree.Has (.expression e) → e.Grouped) ∧
    ∃ tokens stop e d m, scan "a * b ?? c" = .ok (tokens, stop) ∧
      Parse.operands (.within 2) 2 (.start tokens (stop.span [])) ⟨2, none⟩ = .ok e d m ∧
      e.grouping = "(a*b)" ∧ (∀ op ∈ e.operator?, 2 ≤ op.precedence) ∧ d.Below 2 := by
  constructor
  · have hgrouping : (SourceTree.parse operatorFile).toOption.map
        (fun tree => tree.fragments.map Fragment.grouping) =
          some ["(((a-b)-(c*d))??(e??f))"] := by
      decide +kernel
    cases htree : SourceTree.parse operatorFile with
    | error e =>
      rw [htree] at hgrouping
      cases hgrouping
    | ok tree =>
      rw [htree] at hgrouping
      exact ⟨tree, rfl, Option.some.inj hgrouping, SourceTree.operators_grouped.1 htree⟩
  · have hgrouping : (scan "a * b ?? c").toOption.bind (fun scanned =>
        match Parse.operands (.within 2) 2 (.start scanned.1 (scanned.2.span [])) ⟨2, none⟩ with
        | .ok e _ _ => some e.grouping
        | .fail .. => none) = some "(a*b)" := by
      decide +kernel
    cases hscan : scan "a * b ?? c" with
    | error e =>
      rw [hscan] at hgrouping
      cases hgrouping
    | ok scanned =>
      obtain ⟨tokens, stop⟩ := scanned
      rw [hscan] at hgrouping
      dsimp only [Except.toOption, Option.bind] at hgrouping
      split at hgrouping
      · rename_i e d m hread
        obtain ⟨hleast, hbelow⟩ := SourceTree.operators_grouped.2 hread
        exact ⟨tokens, stop, e, d, m, rfl, hread, Option.some.inj hgrouping, hleast, hbelow⟩
      · cases hgrouping

end GatewayPolicy
