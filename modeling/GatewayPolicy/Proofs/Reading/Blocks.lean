import GatewayPolicy.Proofs.Reading.Productions

/-! # Statements cut the tokens of a block

  The statements of a block stand one after the other, and nothing stands between
  them. Each statement is read from the token where the one before it ended, and its
  place reaches from its first token to its last, also when it could not be read.

  - `Block` is a pair of braces with the statements in them, and `Stmt.blocks` and
    `SourceTree.blocks` list the blocks of a tree.
  - `Block.Among` says that the statements of a block cut the tokens between its braces.
  - `Parse.Delimits` are the parses of statements that give each statement its place.
-/

namespace GatewayPolicy

-- a production of many steps takes an instance for each of them
set_option synthInstance.maxSize 1024

/-! ## Blocks -/

/-- Statements in braces, and the place of the braces. -/
structure Block where
  statements : List Stmt
  span : Span

mutual

/-- The blocks in a statement. -/
def Stmt.blocks : Stmt → List Block
  | .block statements span => ⟨statements, span⟩ :: Stmt.blocksOfAll statements
  | .conditional _ thenBranch elseBranch _ => thenBranch.blocks ++ Stmt.blocksOfElse elseBranch
  | .expression .. => []
  | .declaration .. => []
  | .other .. => []
  | .malformed .. => []

/-- The blocks in some statements. -/
def Stmt.blocksOfAll : List Stmt → List Block
  | [] => []
  | s :: ss => s.blocks ++ Stmt.blocksOfAll ss

/-- The blocks in a branch that may be left out. -/
def Stmt.blocksOfElse : Option Stmt → List Block
  | none => []
  | some s => s.blocks

end

/-- The blocks of a method's body. -/
def MethodBody.blocks : MethodBody → List Block
  | .block statements span => ⟨statements, span⟩ :: Stmt.blocksOfAll statements
  | .expression _ => []

/-- The blocks of a member of a class. -/
def Member.blocks : Member → List Block
  | .method m => (m.body.map MethodBody.blocks).getD []
  | .field _ => []
  | .other _ => []

/-- The blocks of a class. -/
def ClassDecl.blocks (c : ClassDecl) : List Block := c.members.flatMap Member.blocks

/-- The blocks of what a file declares. -/
def Contents.blocks (contents : Contents) : List Block :=
  contents.classes.flatMap ClassDecl.blocks

/-- The blocks of a file. -/
def SourceTree.blocks (t : SourceTree) : List Block := t.toContents.blocks

/-- A statement reaches from the first of some tokens to the last. -/
def Stmt.Spans (s : Stmt) (chunk : List Token) : Prop :=
  ∃ first ∈ chunk.head?, ∃ last ∈ chunk.getLast?, s.span = first.span.cover last.span

/-- The braces of a block are among some tokens, and its statements cut the tokens between
    them into chunks, one for each statement. -/
def Block.Among (b : Block) (ts : List Token) : Prop :=
  ∃ (before : List Token) (opening : Token) (chunks : List (List Token)) (closing : Token)
    (after : List Token), ts = before ++ opening :: (chunks.flatten ++ closing :: after) ∧
      opening.isSymbol .openBrace = true ∧ closing.isSymbol .closeBrace = true ∧
      b.span = opening.span.cover closing.span ∧ List.Forall₂ Stmt.Spans b.statements chunks

/-- A block is among all tokens if it is among those that are left. -/
theorem Block.Among.of_reaches {b : Block} {c d : Cursor} (hreach : c.Reaches d)
    (h : b.Among d.rest) : b.Among c.rest := by
  obtain ⟨taken, htakes⟩ := hreach
  obtain ⟨before, opening, chunks, closing, after, hrest, hb⟩ := h
  refine ⟨taken ++ before, opening, chunks, closing, after, ?_, hb⟩
  rw [htakes.rest, hrest, List.append_assoc]

/-! ## Places of statements -/

/-- A statement was read from one cursor to another: it took a token, its place reaches from
    the first token to the last, and its blocks cut their tokens. -/
structure Stmt.ReadBetween (c d : Cursor) (s : Stmt) : Prop where
  passes : c.Passes d
  span : s.span = c.peek.span.cover d.last
  blocks : ∀ b ∈ s.blocks, b.Among c.rest

/-- A statement without blocks that reaches from `start` to where reading has come. -/
structure Stmt.KeptFrom (start : Span) (s : Stmt) (d : Cursor) : Prop where
  span : s.span = start.cover d.last
  blocks : s.blocks = []

theorem Stmt.KeptFrom.readBetween {s : Stmt} {c d : Cursor} (h : s.KeptFrom c.peek.span d)
    (hpasses : c.Passes d) : s.ReadBetween c d := by
  refine ⟨hpasses, h.span, ?_⟩
  rw [h.blocks]
  exact List.forall_mem_nil _

/-- The tokens that a statement took are those that it spans. -/
theorem Stmt.ReadBetween.spans {s : Stmt} {c d : Cursor} (h : s.ReadBetween c d) :
    ∃ chunk, c.Takes chunk d ∧ s.Spans chunk := by
  obtain ⟨chunk, hne, htakes⟩ := h.passes
  obtain ⟨first, chunk, rfl⟩ := List.exists_cons_of_ne_nil hne
  have hpeek : c.peek = first := by
    unfold Cursor.peek
    rw [htakes.rest]
    rfl
  have hlast : d.last = ((first :: chunk).getLast hne).span := by
    rw [htakes.last, List.getLast?_eq_some_getLast hne]
    rfl
  refine ⟨_, htakes, first, rfl, _, List.getLast?_eq_some_getLast hne, ?_⟩
  rw [h.span, hpeek, hlast]

namespace Parse

/-- A parse of statements that gives each its place. -/
def Delimits (q : Parse Stmt) : Prop :=
  ∀ {c d : Cursor} {n m : Nesting} {s : Stmt}, q c n = .ok s d m → s.ReadBetween c d

theorem Delimits.forward {q : Parse Stmt} (hq : Delimits q) : Forward q where
  reaches h := (hq h).passes.reaches

variable {q : Parse Stmt} {e : Parse Expr} {c d : Cursor} {n m : Nesting} {s : Stmt}

/-! ## Malformed statements -/

/-- A skipped statement takes a token, unless it stands in front of a closing brace. -/
theorem skipStatement_passes {u : Unit} (h : skipStatement c n = .ok u d m) :
    c.Passes d ∨ d.peek.isSymbol .closeBrace = true := by
  obtain ⟨_, c', n', hskip, h⟩ := bind_eq_ok h
  have hreach : c.Reaches c' := Forward.reaches hskip
  obtain ⟨_, _, _, hpeek, h⟩ := bind_eq_ok h
  cases hpeek
  split at h
  · rename_i hclose
    cases h
    exact .inr hclose
  · split at h
    · obtain ⟨_, _, _, hgroup, h⟩ := bind_eq_ok h
      cases h
      exact .inl (hreach.trans_passes (Strict.passes hgroup))
    · split at h
      · rename_i hsemicolon
        obtain ⟨_, _, _, hadvance, h⟩ := bind_eq_ok h
        cases hadvance
        cases h
        exact .inl (hreach.trans_passes (Cursor.passes_next (Token.not_eof_of_isSymbol hsemicolon)))
      · cases h

/-- What stands in place of a statement is the statement, or the tokens that were skipped.
    Nothing is skipped only in front of a closing brace. -/
structure Recovered (c d : Cursor) (s : Stmt) : Prop where
  reaches : c.Reaches d
  blocks : ∀ b ∈ s.blocks, b.Among c.rest
  read : c.peek.isSymbol .closeBrace = false → s.ReadBetween c d

theorem recovered_of_skip {u : Unit} (h : skipStatement c n = .ok u d m) (fault : SyntaxFault) :
    Recovered c d (.malformed fault
      (if d.rest.length = c.rest.length then c.peek.span else c.peek.span.cover d.last)) := by
  have hreach : c.Reaches d := Forward.reaches h
  refine ⟨hreach, List.forall_mem_nil _, ?_⟩
  intro hbrace
  -- where nothing was taken, the cursor still stands in front of what is no closing brace
  have hpasses : c.Passes d := by
    rcases hreach.eq_or_passes with rfl | hpasses
    · rcases skipStatement_passes h with hpasses | hclose
      · exact hpasses
      · rw [hbrace] at hclose
        cases hclose
    · exact hpasses
  have hlength := hpasses.length_lt
  rw [if_neg (by omega)]
  exact ⟨hpasses, rfl, List.forall_mem_nil _⟩

theorem recovering_recovered (hq : Delimits q) (h : recovering q c n = .ok s d m) :
    Recovered c d s := by
  obtain ⟨start, _, _, hstart, h⟩ := bind_eq_ok h
  cases hstart
  obtain ⟨outcome, c', n', hobserve, h⟩ := bind_eq_ok h
  unfold observe at hobserve
  split at hobserve
  · rename_i hread
    cases hobserve
    cases h
    have hs := hq hread
    exact ⟨hs.passes.reaches, hs.blocks, fun _ => hs⟩
  · rename_i error _ _
    cases hobserve
    obtain ⟨tooDeep, _, _, hexceeded, h⟩ := bind_eq_ok h
    cases hexceeded
    -- too deep a nesting ends the parse, and any other fault skips the statement
    extract_lets place skipped at h
    have hskipped : ∀ n', skipped () c n' = .ok s d m → Recovered c d s := by
      intro n' h
      obtain ⟨_, c', _, hskip, h⟩ := bind_eq_ok h
      obtain ⟨_, _, _, hcursor, h⟩ := bind_eq_ok h
      cases hcursor
      cases h
      exact recovered_of_skip hskip error.fault
    split at h
    · obtain ⟨_, _, _, hthrow, _⟩ := bind_eq_ok h
      cases hthrow
    · exact hskipped _ h

/-! ## Blocks of statements -/

instance [Forward q] : Forward (recovering q) := by
  unfold recovering
  apply Forward.bind inferInstance
  intro start
  apply Forward.bind inferInstance
  intro outcome
  cases outcome <;> infer_instance

instance [Forward q] (opening : Span) (k : Nat) : Forward (statementsWithin opening q k) := by
  induction k with
  | zero =>
    unfold statementsWithin
    infer_instance
  | succ k ih =>
    unfold statementsWithin
    infer_instance

instance [Forward q] : Forward (block q) := by
  unfold block
  infer_instance

/-- Statements up to a closing brace follow one another. -/
theorem statementsWithin_spans (hq : Delimits q) {opening : Span} {k : Nat} {ss : List Stmt}
    (h : statementsWithin opening q k c n = .ok ss d m) :
    (∃ chunks, c.Takes chunks.flatten d ∧ List.Forall₂ Stmt.Spans ss chunks) ∧
      ∀ b ∈ Stmt.blocksOfAll ss, b.Among c.rest := by
  induction k generalizing c n ss with
  | zero =>
    obtain ⟨_, _, _, hat, h⟩ := bind_eq_ok h
    cases hat
    split at h
    · cases h
      exact ⟨⟨[], Cursor.takes_nil _, .nil⟩, List.forall_mem_nil _⟩
    · cases h
  | succ k ih =>
    obtain ⟨_, _, _, hpeek, h⟩ := bind_eq_ok h
    cases hpeek
    split at h
    · cases h
      exact ⟨⟨[], Cursor.takes_nil _, .nil⟩, List.forall_mem_nil _⟩
    · rename_i hclose
      extract_lets tail at h
      have htail : ∀ n', tail () c n' = .ok ss d m →
          (∃ chunks, c.Takes chunks.flatten d ∧ List.Forall₂ Stmt.Spans ss chunks) ∧
            ∀ b ∈ Stmt.blocksOfAll ss, b.Among c.rest := by
        intro n' h
        obtain ⟨first, c', _, hfirst, h⟩ := bind_eq_ok h
        obtain ⟨rest, c'', _, hrest, h⟩ := bind_eq_ok h
        cases h
        have hread := (recovering_recovered hq hfirst).read (Bool.eq_false_iff.2 hclose)
        obtain ⟨chunk, htakes, hspans⟩ := hread.spans
        obtain ⟨⟨chunks, htakes', hchunks⟩, hblocks⟩ := ih hrest
        refine ⟨⟨chunk :: chunks, htakes.append htakes', .cons hspans hchunks⟩, ?_⟩
        intro b hb
        rw [Stmt.blocksOfAll, List.mem_append] at hb
        rcases hb with hb | hb
        · exact hread.blocks b hb
        · exact (hblocks b hb).of_reaches hread.passes.reaches
      split at h
      · obtain ⟨_, _, _, hthrow, _⟩ := bind_eq_ok h
        cases hthrow
      · exact htail _ h

/-- A block is read between its braces. -/
theorem block_readBetween (hq : Delimits q) {r : List Stmt × Span} (h : block q c n = .ok r d m) :
    (Stmt.block r.1 r.2).ReadBetween c d := by
  obtain ⟨opening, _, _, hopening, h⟩ := bind_eq_ok h
  obtain ⟨rfl, rfl, hopen⟩ := expect_eq_ok hopening
  obtain ⟨ss, c', _, hstatements, h⟩ := bind_eq_ok h
  obtain ⟨closing, _, _, hclosing, h⟩ := bind_eq_ok h
  cases hclosing
  cases h
  obtain ⟨⟨chunks, htakes, hchunks⟩, hblocks⟩ := statementsWithin_spans hq hstatements
  have hclose := closeBrace_of_statementsWithin hstatements
  -- the tokens of the block are its braces and the chunks between them
  have hfirst := Cursor.takes_next (Token.not_eof_of_isSymbol hopen)
  have hlast := Cursor.takes_next (Token.not_eof_of_isSymbol hclose)
  have hall := hfirst.append (htakes.append hlast)
  refine ⟨⟨_, List.cons_ne_nil _ _, hall⟩, ?_, ?_⟩
  · rw [hlast.last]
    rfl
  · intro b hb
    rcases List.mem_cons.1 hb with rfl | hb
    · refine ⟨[], c.peek, chunks, c'.peek, c'.next.rest, ?_, hopen, hclose, rfl, hchunks⟩
      rw [hall.rest]
      simp
    · exact (hblocks b hb).of_reaches (Cursor.reaches_next c)

/-! ## Statements kept by their kind -/

instance (which : OtherStatement) (start : Span) : Forward (otherFrom which start) := by
  unfold otherFrom
  infer_instance

instance (which : OtherStatement) (start : Span) :
    Finishes (Stmt.KeptFrom start) (otherFrom which start) where
  fits h := by
    cases h
    exact ⟨rfl, rfl⟩

/-- A statement that begins with a keyword, takes more tokens and is kept by its kind. -/
theorem readBetween_of_keyword {body : Span → Parse Stmt} [∀ start, Forward (body start)]
    [∀ start, Finishes (Stmt.KeptFrom start) (body start)] (hc : c.peek.isEof = false)
    (h : (do
      let start ← here
      let _ ← advance
      body start) c n = .ok s d m) : s.ReadBetween c d := by
  obtain ⟨_, _, _, hhere, h⟩ := bind_eq_ok h
  cases hhere
  obtain ⟨_, _, _, hadvance, h⟩ := bind_eq_ok h
  cases hadvance
  have hkept : s.KeptFrom c.peek.span d := Finishes.fits h
  exact hkept.readBetween ((Cursor.passes_next hc).trans_reaches (Forward.reaches h))

instance : Forward parenGroup := by
  unfold parenGroup
  infer_instance

instance [Forward q] (k : Nat) : Forward (catchesWithin q k) := by
  induction k with
  | zero =>
    unfold catchesWithin
    infer_instance
  | succ k ih =>
    unfold catchesWithin
    infer_instance

/-! ## Statements with parts -/

theorem ifStatement_readBetween [Forward e] (hq : Delimits q) (hc : c.peek.isEof = false)
    (h : ifStatement e q c n = .ok s d m) : s.ReadBetween c d := by
  have hforward := hq.forward
  obtain ⟨_, _, _, hhere, h⟩ := bind_eq_ok h
  cases hhere
  obtain ⟨_, _, _, hadvance, h⟩ := bind_eq_ok h
  cases hadvance
  obtain ⟨_, c₁, _, hopen, h⟩ := bind_eq_ok h
  obtain ⟨condition, c₂, _, hcondition, h⟩ := bind_eq_ok h
  obtain ⟨_, c₃, _, hclose, h⟩ := bind_eq_ok h
  have hhead : c.Passes c₃ := (Cursor.passes_next hc).trans_reaches
    ((Forward.reaches hopen).trans ((Forward.reaches hcondition).trans (Forward.reaches hclose)))
  obtain ⟨thenBranch, c₄, _, hthen, h⟩ := bind_eq_ok h
  have hthen := recovering_recovered hq hthen
  have hmiddle : c.Passes c₄ := hhead.trans_reaches hthen.reaches
  -- the other branch is read where the word `else` follows
  obtain ⟨elseBranch, c₅, _, helse, h⟩ := bind_eq_ok h
  have hbranch : c₄.Reaches c₅ ∧ ∀ b ∈ Stmt.blocksOfElse elseBranch, b.Among c.rest := by
    obtain ⟨_, c', _, heat, helse⟩ := bind_eq_ok helse
    have hword : c₄.Reaches c' := Forward.reaches heat
    split at helse
    · obtain ⟨branch, c'', _, hbranch, helse⟩ := bind_eq_ok helse
      cases helse
      have hbranch := recovering_recovered hq hbranch
      refine ⟨hword.trans hbranch.reaches, ?_⟩
      intro b hb
      exact (hbranch.blocks b hb).of_reaches (hmiddle.trans_reaches hword).reaches
    · cases helse
      exact ⟨hword, List.forall_mem_nil _⟩
  cases h
  refine ⟨hmiddle.trans_reaches hbranch.1, rfl, ?_⟩
  intro b hb
  rcases List.mem_append.1 hb with hb | hb
  · exact (hthen.blocks b hb).of_reaches hhead.reaches
  · exact hbranch.2 b hb

instance (start : Span) : Forward (localFunction start) := by
  unfold localFunction
  infer_instance

instance (start : Span) : Finishes (Stmt.KeptFrom start) (localFunction start) := by
  unfold localFunction
  infer_instance

/-- A statement that ends with a symbol reaches to that symbol. -/
theorem keptFrom_of_expect {start : Span} {stop : Symbol} {f : Span → Stmt}
    (h : (do
      let t ← expect stop
      return f (start.cover t.span)) c n = .ok s d m)
    (hf : ∀ span, (f span).span = span ∧ (f span).blocks = []) :
    c.Reaches d ∧ s.KeptFrom start d := by
  obtain ⟨t, _, _, ht, h⟩ := bind_eq_ok h
  have hreach : c.Reaches _ := Forward.reaches ht
  have hlast := expect_last ht
  cases h
  refine ⟨hreach, ?_, (hf _).2⟩
  rw [(hf _).1, hlast]

theorem localDeclaration_readBetween [Forward e] (h : localDeclaration e c n = .ok s d m) :
    s.ReadBetween c d := by
  obtain ⟨_, _, _, hhere, h⟩ := bind_eq_ok h
  cases hhere
  obtain ⟨_, c₁, _, hconst, h⟩ := bind_eq_ok h
  have hconst : c.Reaches c₁ := Forward.reaches hconst
  obtain ⟨_, _, _, hawait, h⟩ := bind_eq_ok h
  cases hawait
  extract_lets declared at h
  have hdeclared : ∀ n', declared () c₁ n' = .ok s d m → s.ReadBetween c d := by
    intro n' h
    obtain ⟨type, c₂, _, htype, h⟩ := bind_eq_ok h
    obtain ⟨name, c₃, _, hname, h⟩ := bind_eq_ok h
    have hpasses : c.Passes c₃ :=
      (hconst.trans (Forward.reaches htype)).trans_passes (Strict.passes hname)
    obtain ⟨_, _, _, hfunction, h⟩ := bind_eq_ok h
    cases hfunction
    split at h
    · have hkept : s.KeptFrom c.peek.span d := Finishes.fits h
      exact hkept.readBetween (hpasses.trans_reaches (Forward.reaches h))
    · obtain ⟨initializer, c₄, _, hinitializer, h⟩ := bind_eq_ok h
      have hpasses : c.Passes c₄ := hpasses.trans_reaches (Forward.reaches hinitializer)
      obtain ⟨_, _, _, hcomma, h⟩ := bind_eq_ok h
      cases hcomma
      split at h
      · obtain ⟨_, _, _, hskip, h⟩ := bind_eq_ok h
        cases h
        exact ⟨hpasses.trans_reaches (Forward.reaches hskip), rfl, List.forall_mem_nil _⟩
      · obtain ⟨hreach, hkept⟩ := keptFrom_of_expect h fun _ => ⟨rfl, rfl⟩
        exact hkept.readBetween (hpasses.trans_reaches hreach)
  split at h
  · obtain ⟨_, _, _, hexpected, _⟩ := bind_eq_ok h
    cases hexpected
  · exact hdeclared _ h

theorem expressionStatement_readBetween [Forward e] (h : expressionStatement e c n = .ok s d m) :
    s.ReadBetween c d := by
  have hstrict : Strict (expressionStatement e) := by
    unfold expressionStatement
    infer_instance
  have hpasses : c.Passes d := Strict.passes h
  obtain ⟨_, _, _, hhere, h⟩ := bind_eq_ok h
  cases hhere
  obtain ⟨value, c', _, hvalue, h⟩ := bind_eq_ok h
  obtain ⟨-, hkept⟩ := keptFrom_of_expect h fun _ => ⟨rfl, rfl⟩
  exact hkept.readBetween hpasses

theorem plainStatement_readBetween [Forward e] (h : plainStatement e c n = .ok s d m) :
    s.ReadBetween c d := by
  obtain ⟨declaration, c', n', hattempt, h⟩ := bind_eq_ok h
  unfold attempt at hattempt
  split at hattempt
  · rename_i hdeclaration
    cases hattempt
    cases h
    exact localDeclaration_readBetween hdeclaration
  · cases hattempt
    exact expressionStatement_readBetween h

theorem wordStatement_readBetween [Forward e] (hq : Delimits q) {t next : Token}
    (hc : c.peek.isEof = false) (h : wordStatement e q t next c n = .ok s d m) :
    s.ReadBetween c d := by
  have hforward := hq.forward
  generalize hword : wordStatement e q t next = p at h
  unfold wordStatement at hword
  -- one case for each word that begins a statement; `yield` may begin an expression too
  split at hword <;> subst hword
  case h_1 => exact ifStatement_readBetween hq hc h
  case h_7 =>
    split at h
    · exact readBetween_of_keyword hc h
    · exact plainStatement_readBetween h
  case h_16 => exact plainStatement_readBetween h
  all_goals exact readBetween_of_keyword hc h

theorem delimits_statementOf [Forward e] (hq : Delimits q) : Delimits (statementOf e q) := by
  intro c d n m s h
  obtain ⟨_, _, _, hpeek, h⟩ := bind_eq_ok h
  cases hpeek
  split at h
  · obtain ⟨r, _, _, hblock, h⟩ := bind_eq_ok h
    cases h
    exact block_readBetween hq hblock
  · split at h
    · rename_i hsemicolon
      obtain ⟨_, _, _, hadvance, h⟩ := bind_eq_ok h
      cases hadvance
      cases h
      exact ⟨Cursor.passes_next (Token.not_eof_of_isSymbol hsemicolon), rfl, List.forall_mem_nil _⟩
    · split at h
      · rename_i hword
        obtain ⟨_, _, _, hnext, h⟩ := bind_eq_ok h
        cases hnext
        exact wordStatement_readBetween hq (Token.not_eof_of_isIdentifier hword) h
      · exact plainStatement_readBetween h

theorem delimits_statementWithin (levels : Nat) : Delimits (statementWithin levels) := by
  induction levels with
  | zero =>
    intro c d n m s h
    cases h
  | succ levels ih => exact delimits_statementOf ih

end Parse

end GatewayPolicy
