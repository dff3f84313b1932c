import GatewayPolicy.Proofs.Lexical.Places
import GatewayPolicy.Proofs.Reading.Declarations

/-! # Statements partition the tokens of their block

  Every block of a file that parses is a stretch of the file's tokens between two
  braces, and its statements divide this stretch among them: no token is left out,
  and none belongs to two statements.

  - `SourceTree.blocks_among` finds the blocks of each method in the tokens of the file.
  - `SourceTree.blocks_partition` is the result.
-/

namespace GatewayPolicy

/-! ## Methods -/

/-- The blocks of a method cut the tokens that it is read from. -/
theorem Parse.methodOf_blocks {g : CodeGrammar} [Grammar.Forward g.toGrammar]
    (hg : Delimits g.statement) {start : Span} {type : String} {name : Token} {mods : List String}
    {c d : Cursor} {n m : Nesting} {method : MethodDecl}
    (h : methodOf g start type name mods c n = .ok method d m) :
    ∀ b ∈ Member.blocks (.method method), b.Among c.rest := by
  obtain ⟨ps, c₁, _, hparameters, h⟩ := bind_eq_ok h
  obtain ⟨_, c₂, _, hconstraints, h⟩ := bind_eq_ok h
  have hhead : c.Reaches c₂ := (Forward.reaches hparameters).trans (Forward.reaches hconstraints)
  obtain ⟨body, c₃, _, hbody, h⟩ := bind_eq_ok h
  obtain ⟨_, _, _, hlast, h⟩ := bind_eq_ok h
  cases hlast
  cases h
  -- only a body in braces has blocks
  have hblocks : ∀ b ∈ (body.map MethodBody.blocks).getD [], b.Among c₂.rest := by
    obtain ⟨_, _, _, hat, hbody⟩ := bind_eq_ok hbody
    cases hat
    split at hbody
    · obtain ⟨r, _, _, hblock, hbody⟩ := bind_eq_ok hbody
      cases hbody
      exact (block_readBetween hg hblock).blocks
    · obtain ⟨_, c', _, heat, hbody⟩ := bind_eq_ok hbody
      split at hbody
      · obtain ⟨_, c'', _, hvalue, hbody⟩ := bind_eq_ok hbody
        obtain ⟨_, _, _, hsemicolon, hbody⟩ := bind_eq_ok hbody
        cases hbody
        exact List.forall_mem_nil _
      · obtain ⟨_, _, _, hsemicolon, hbody⟩ := bind_eq_ok hbody
        cases hbody
        exact List.forall_mem_nil _
  exact fun b hb => (hblocks b hb).of_reaches hhead

/-- The blocks of a file cut its tokens. -/
theorem SourceTree.blocks_among {limit : Nat} {file : SourceFile} {tree : SourceTree}
    (h : SourceTree.parseWithin limit file = .ok tree) :
    ∃ ts stop, scan file.text = .ok (ts, stop) ∧ ∀ b ∈ tree.blocks, b.Among ts := by
  obtain ⟨ts, stop, hscan, hread⟩ := SourceTree.methods_read h
  refine ⟨ts, stop, hscan, ?_⟩
  intro b hb
  obtain ⟨c, hc, hb⟩ := List.mem_flatMap.mp hb
  obtain ⟨member, hmember, hb⟩ := List.mem_flatMap.mp hb
  cases member with
  | method method =>
    obtain ⟨first, hfirst, type, name, mods, c', d, n, m, hreach, hmethod⟩ :=
      hread c hc method (ClassDecl.mem_methods.mpr hmember)
    have hforward : Grammar.Forward (CodeGrammar.within limit).toGrammar :=
      Grammar.forward_within limit
    have hamong := Parse.methodOf_blocks (CodeGrammar.delimits_within limit) hmethod b hb
    exact hamong.of_reaches (hfirst.trans hreach)
  | field _ => cases hb
  | other _ => cases hb

/-! ## Partitions -/

/-- A token lies in a span. -/
def Token.Inside (t : Token) (s : Span) : Prop := s.start ≤ t.span.start ∧ t.span.stop ≤ s.stop

instance (t : Token) (s : Span) : Decidable (t.Inside s) :=
  inferInstanceAs (Decidable (_ ∧ _))

/-- Tokens one behind the other, none of them empty. -/
structure InOrder (ts : List Token) : Prop where
  behind : ts.Pairwise fun t u => t.span.stop ≤ u.span.start
  filled : ∀ t ∈ ts, t.span.start < t.span.stop

theorem InOrder.append {ts us : List Token} (h : InOrder (ts ++ us)) :
    InOrder ts ∧ InOrder us ∧ ∀ t ∈ ts, ∀ u ∈ us, t.span.stop ≤ u.span.start := by
  obtain ⟨hts, hus, hbetween⟩ := List.pairwise_append.1 h.behind
  obtain ⟨hfilled, hfilled'⟩ := List.forall_mem_append.1 h.filled
  exact ⟨⟨hts, hfilled⟩, ⟨hus, hfilled'⟩, hbetween⟩

/-- The tokens of a text whose offsets fit into a word are in order, and the end of the text
    stands behind them. -/
theorem InOrder.of_scan {text : String} (hfits : text.utf8ByteSize < UInt32.size)
    {ts : List Token} {stop : Place} (h : scan text = .ok (ts, stop)) :
    InOrder ts ∧ ∀ t ∈ ts, t.span.stop ≤ (stop.span []).start := by
  have hlaid := laid_of_tokenize (tokenize_of_scan h)
  have hbytes : bytes ([] ++ text.toList) < UInt32.size := by
    rwa [List.nil_append, bytes_toList]
  obtain ⟨us, s, hus, -, -, hfilled⟩ := hlaid.last hbytes
  obtain ⟨rfl, -⟩ := List.append_inj' hus rfl
  obtain ⟨hbehind, -, hend⟩ := List.pairwise_append.1 (hlaid.increasing hbytes)
  refine ⟨⟨hbehind.imp And.right, fun t ht => (hfilled t ht).2⟩, ?_⟩
  intro t ht
  exact (hend t ht _ (List.mem_singleton_self _)).2

/-- A statement that spans tokens in order starts with the first and stops with the last, and
    all of them lie in it. -/
theorem Stmt.Spans.bounds {s : Stmt} {chunk : List Token} (h : s.Spans chunk)
    (hchunk : InOrder chunk) :
    (∃ first ∈ chunk, s.span.start = first.span.start) ∧
      (∃ last ∈ chunk, s.span.stop = last.span.stop) ∧ ∀ t ∈ chunk, t.Inside s.span := by
  obtain ⟨first, hfirst, last, hlast, hspan⟩ := h
  have hstart : ∀ t ∈ chunk, first.span.start ≤ t.span.start := by
    obtain ⟨rest, rfl⟩ := List.head?_eq_some_iff.1 hfirst
    intro t ht
    rcases List.mem_cons.1 ht with rfl | ht
    · exact Nat.le_refl _
    · have hbehind := (List.pairwise_cons.1 hchunk.behind).1 t ht
      have hfilled := hchunk.filled first (List.mem_cons_self ..)
      omega
  have hstop : ∀ t ∈ chunk, t.span.stop ≤ last.span.stop := by
    obtain ⟨front, rfl⟩ := List.getLast?_eq_some_iff.1 hlast
    intro t ht
    rcases List.mem_append.1 ht with ht | ht
    · have hbehind := hchunk.append.2.2 t ht last (List.mem_singleton_self _)
      have hfilled := hchunk.filled last (List.mem_append_right _ (List.mem_singleton_self _))
      omega
    · rw [List.mem_singleton.1 ht]
  have hfirst := List.mem_of_mem_head? hfirst
  have hlast := List.mem_of_mem_getLast? hlast
  have hspanStart : s.span.start = first.span.start := by
    rw [hspan, Span.cover_start]
    exact Nat.min_eq_left (hstart last hlast)
  have hspanStop : s.span.stop = last.span.stop := by
    rw [hspan, Span.cover_stop]
    exact Nat.max_eq_right (hstop first hfirst)
  refine ⟨⟨first, hfirst, hspanStart⟩, ⟨last, hlast, hspanStop⟩, ?_⟩
  intro t ht
  unfold Token.Inside
  rw [hspanStart, hspanStop]
  exact ⟨hstart t ht, hstop t ht⟩

section Chunks

variable {ss : List Stmt} {chunks : List (List Token)}

/-- Every statement starts and stops with tokens of the chunks. -/
theorem edges_of_chunks (h : List.Forall₂ Stmt.Spans ss chunks) (hchunks : InOrder chunks.flatten) :
    ∀ s ∈ ss, (∃ first ∈ chunks.flatten, s.span.start = first.span.start) ∧
      (∃ last ∈ chunks.flatten, s.span.stop = last.span.stop) ∧ s.span.start < s.span.stop := by
  induction h with
  | nil => exact List.forall_mem_nil _
  | @cons s chunk ss chunks hs _ ih =>
    obtain ⟨hchunk, hrest, -⟩ := hchunks.append
    obtain ⟨⟨first, hfirst, hstart⟩, ⟨last, hlast, hstop⟩, hinside⟩ := hs.bounds hchunk
    intro u hu
    rcases List.mem_cons.1 hu with rfl | hu
    · refine ⟨⟨first, List.mem_append_left _ hfirst, hstart⟩,
        ⟨last, List.mem_append_left _ hlast, hstop⟩, ?_⟩
      have hfilled := hchunk.filled first hfirst
      have hin := (hinside first hfirst).2
      omega
    · obtain ⟨⟨first, hfirst, hstart⟩, ⟨last, hlast, hstop⟩, hfilled⟩ := ih hrest u hu
      exact ⟨⟨first, List.mem_append_right _ hfirst, hstart⟩,
        ⟨last, List.mem_append_right _ hlast, hstop⟩, hfilled⟩

/-- Statements that span chunks in order are in order. -/
theorem pairwise_of_chunks (h : List.Forall₂ Stmt.Spans ss chunks)
    (hchunks : InOrder chunks.flatten) : ss.Pairwise fun s u => s.span.stop ≤ u.span.start := by
  induction h with
  | nil => exact .nil
  | @cons s chunk ss chunks hs hss ih =>
    obtain ⟨hchunk, hrest, hbetween⟩ := hchunks.append
    refine List.pairwise_cons.2 ⟨?_, ih hrest⟩
    intro u hu
    obtain ⟨-, ⟨last, hlast, hstop⟩, -⟩ := hs.bounds hchunk
    obtain ⟨⟨first, hfirst, hstart⟩, -⟩ := edges_of_chunks hss hrest u hu
    rw [hstop, hstart]
    exact hbetween last hlast first hfirst

/-- Every token of the chunks lies in a statement. -/
theorem exists_inside_of_chunks (h : List.Forall₂ Stmt.Spans ss chunks)
    (hchunks : InOrder chunks.flatten) :
    ∀ t ∈ chunks.flatten, ∃ (i : Nat) (s : Stmt), ss[i]? = some s ∧ t.Inside s.span := by
  induction h with
  | nil => exact List.forall_mem_nil _
  | @cons s chunk ss chunks hs hss ih =>
    obtain ⟨hchunk, hrest, -⟩ := hchunks.append
    obtain ⟨-, -, hinside⟩ := hs.bounds hchunk
    intro t ht
    rcases List.mem_append.1 ht with ht | ht
    · exact ⟨0, s, rfl, hinside t ht⟩
    · obtain ⟨i, u, hu, hin⟩ := ih hrest t ht
      exact ⟨i + 1, u, hu, hin⟩

/-- A token that is not empty lies in one statement at most. -/
theorem inside_unique (h : ss.Pairwise fun s u => s.span.stop ≤ u.span.start) {t : Token}
    (ht : t.span.start < t.span.stop) {i j : Nat} {s u : Stmt} (hi : ss[i]? = some s)
    (hj : ss[j]? = some u) (hs : t.Inside s.span) (hu : t.Inside u.span) : i = j := by
  obtain ⟨hilt, rfl⟩ := List.getElem?_eq_some_iff.1 hi
  obtain ⟨hjlt, rfl⟩ := List.getElem?_eq_some_iff.1 hj
  obtain ⟨hs₁, hs₂⟩ := hs
  obtain ⟨hu₁, hu₂⟩ := hu
  rcases Nat.lt_trichotomy i j with hij | hij | hij
  · have hbehind := List.pairwise_iff_getElem.1 h i j hilt hjlt hij
    omega
  · exact hij
  · have hbehind := List.pairwise_iff_getElem.1 h j i hjlt hilt hij
    omega

end Chunks

/-- The statements of a block divide the tokens between its braces among them. -/
structure Block.PartitionedBy (b : Block) (tokens : List Token) (opening closing : Token) :
    Prop where
  opening_mem : opening ∈ tokens
  closing_mem : closing ∈ tokens
  opens : opening.isSymbol .openBrace = true
  closes : closing.isSymbol .closeBrace = true
  /-- The block reaches from brace to brace. -/
  span : b.span = opening.span.cover closing.span
  braces : opening.span.stop ≤ closing.span.start
  /-- No statement is empty, and each lies between the braces. -/
  between : ∀ s ∈ b.statements, opening.span.stop ≤ s.span.start ∧
    s.span.start < s.span.stop ∧ s.span.stop ≤ closing.span.start
  /-- The statements are in order, and no two of them share a byte. -/
  ordered : b.statements.Pairwise fun s u => s.span.stop ≤ u.span.start
  /-- Every token strictly between the braces lies in exactly one statement. -/
  exactlyOne : ∀ t ∈ tokens, opening.span.stop ≤ t.span.start → t.span.stop ≤ closing.span.start →
    ∃! i : Nat, ∃ s : Stmt, b.statements[i]? = some s ∧ t.Inside s.span

/-- A block that cuts tokens in order partitions them; tokens behind them change nothing. -/
theorem Block.Among.partitionedBy {b : Block} {ts behind : List Token} (h : b.Among ts)
    (hts : InOrder ts) (hbehind : ∀ t ∈ ts, ∀ u ∈ behind, t.span.stop ≤ u.span.start)
    (hle : ∀ u ∈ behind, u.span.start ≤ u.span.stop) :
    ∃ opening closing, b.PartitionedBy (ts ++ behind) opening closing := by
  obtain ⟨before, opening, chunks, closing, after, rfl, hopen, hclose, hspan, hspans⟩ := h
  -- the order of all tokens, cut at the opening brace and at the closing one
  have hfilled := hts.filled
  obtain ⟨-, hrest, hbefore⟩ := hts.append
  obtain ⟨-, hrest, hinner⟩ := @InOrder.append [opening] _ hrest
  obtain ⟨hchunks, hrest, houter⟩ := hrest.append
  obtain ⟨-, -, hafter⟩ := @InOrder.append [closing] _ hrest
  have hbraces : opening.span.stop ≤ closing.span.start :=
    hinner opening (by simp) closing (by simp)
  have hopened := hfilled opening (by simp)
  have hclosed := hfilled closing (by simp)
  have hordered := pairwise_of_chunks hspans hchunks
  refine ⟨opening, closing, by simp, by simp, hopen, hclose, hspan, hbraces, ?_, hordered, ?_⟩
  · intro s hs
    obtain ⟨⟨first, hfirst, hstart⟩, ⟨last, hlast, hstop⟩, hfilled⟩ :=
      edges_of_chunks hspans hchunks s hs
    rw [hstart, hstop] at hfilled ⊢
    exact ⟨hinner opening (by simp) first (by simp [hfirst]), hfilled,
      houter last hlast closing (by simp)⟩
  · intro t ht hstart hstop
    -- only the tokens of the chunks lie between the braces
    have hmem : t ∈ chunks.flatten := by
      simp only [List.mem_append, List.mem_cons] at ht
      rcases ht with (ht | rfl | ht | rfl | ht) | ht
      · have := hfilled t (by simp [ht])
        have := hbefore t ht opening (by simp)
        omega
      · omega
      · exact ht
      · omega
      · have := hfilled t (by simp [ht])
        have := hafter closing (by simp) t ht
        omega
      · have := hle t ht
        have := hbehind closing (by simp) t ht
        omega
    obtain ⟨i, s, hs, hin⟩ := exists_inside_of_chunks hspans hchunks t hmem
    refine ⟨i, ⟨s, hs, hin⟩, ?_⟩
    rintro j ⟨u, hu, hin'⟩
    exact inside_unique hordered (hchunks.filled t hmem) hu hs hin' hin

/-- A file that parses has tokens, and the statements of each of its blocks partition the
    tokens between the braces of the block. -/
theorem SourceTree.blocks_partition {file : SourceFile} {tree : SourceTree}
    (hfits : file.text.utf8ByteSize < UInt32.size) (h : SourceTree.parse file = .ok tree) :
    ∃ tokens, tokenize file.text = .ok tokens ∧
      ∀ b ∈ tree.blocks, ∃ opening closing, b.PartitionedBy tokens opening closing := by
  obtain ⟨ts, stop, hscan, hblocks⟩ := SourceTree.blocks_among h
  obtain ⟨hts, hend⟩ := InOrder.of_scan hfits hscan
  refine ⟨_, tokenize_of_scan hscan, ?_⟩
  intro b hb
  apply (hblocks b hb).partitionedBy hts
  · intro t ht u hu
    rw [List.mem_singleton.1 hu]
    exact hend t ht
  · intro u hu
    rw [List.mem_singleton.1 hu]
    exact Nat.le_refl _

/-- Text that forms no statement, a branch with a block, a local function and a loop. -/
def blockFile : SourceFile where
  name := "a.cs"
  text := "class C \x7b void M() \x7b x = ; if (a) \x7b b; \x7d int F() \x7b \x7d while (a) c; \x7d \x7d"

/-- The body of the method has statements of all these kinds, and the branch has its own. -/
theorem SourceTree.blocks_partition_local :
    ∃ tree tokens, SourceTree.parse blockFile = .ok tree ∧ tokenize blockFile.text = .ok tokens ∧
      (tree.blocks.map fun b => b.statements.map Stmt.kind) =
        [[.malformed, .conditional, .other .localFunction, .other .whileLoop], [.expression]] ∧
      ∀ b ∈ tree.blocks, ∃ opening closing, b.PartitionedBy tokens opening closing := by
  have hkinds : ((SourceTree.parse blockFile).toOption.map fun tree =>
      tree.blocks.map fun b => b.statements.map Stmt.kind) =
        some [[.malformed, .conditional, .other .localFunction, .other .whileLoop],
          [.expression]] := by
    decide +kernel
  cases htree : SourceTree.parse blockFile with
  | error e =>
    rw [htree] at hkinds
    cases hkinds
  | ok tree =>
    rw [htree] at hkinds
    obtain ⟨tokens, htokens, hblocks⟩ := SourceTree.blocks_partition (by decide +kernel) htree
    exact ⟨tree, tokens, rfl, htokens, Option.some.inj hkinds, hblocks⟩

end GatewayPolicy
