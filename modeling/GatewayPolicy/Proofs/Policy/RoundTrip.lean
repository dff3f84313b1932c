import GatewayPolicy.Proofs.Policy.Written

/-! # Values survive being written and read

  A file can hold values: a class with a method that declares a variable for each of them.
  Reading the file gives a tree with a declaration for each variable, and the value of its
  initializer is the value that was written, with nothing to report.

  - `Listing` is a list of variables with their values, and `Listing.code` is the file.
  - `Listing.parse_values` is the result.
-/

namespace GatewayPolicy

/-! ## Files that hold values -/

/-- Variables and their values, which the body of a method declares. -/
structure Listing where
  className : PlainName
  methodName : PlainName
  entries : List WrittenField

/-- The declaration of a variable. -/
def declarationCode (f : WrittenField) : String :=
  "var " ++ f.name.text ++ " = " ++ f.value.code ++ "; "

/-- The text of the file. -/
def Listing.code (x : Listing) : String :=
  "class " ++ x.className.text ++ " \x7b void " ++ x.methodName.text ++ "() \x7b " ++
    String.join (x.entries.map declarationCode) ++ "\x7d \x7d"

/-- The pieces of a declaration. -/
def declarationPieces (f : WrittenField) : List Piece :=
  [wordPiece "var", blankPiece, wordPiece f.name.text, blankPiece, Symbol.assign.piece,
    blankPiece] ++ f.value.pieces ++ [Symbol.semicolon.piece, blankPiece]

/-- The pieces of the file. -/
def Listing.pieces (x : Listing) : List Piece :=
  [wordPiece "class", blankPiece, wordPiece x.className.text, blankPiece,
    Symbol.openBrace.piece, blankPiece, wordPiece "void", blankPiece,
    wordPiece x.methodName.text, Symbol.openParen.piece, Symbol.closeParen.piece, blankPiece,
    Symbol.openBrace.piece, blankPiece] ++ x.entries.flatMap declarationPieces ++
    [Symbol.closeBrace.piece, blankPiece, Symbol.closeBrace.piece]

theorem joined_declarations (fs : List WrittenField) :
    joined (fs.flatMap declarationPieces) = (String.join (fs.map declarationCode)).toList := by
  induction fs with
  | nil => rfl
  | cons f fs ih =>
    simp [declarationPieces, declarationCode, ih, Written.joined_pieces, Symbol.text]

theorem Listing.joined_pieces (x : Listing) : joined x.pieces = x.code.toList := by
  simp [pieces, code, joined_declarations, -String.toList_join, Symbol.text]

theorem tiles_declarations (fs : List WrittenField) (rest : List Char) :
    Tiles (fs.flatMap declarationPieces) rest := by
  induction fs with
  | nil => trivial
  | cons f fs ih =>
    have hend : ∀ rest, Tiles [Symbol.semicolon.piece, blankPiece] rest := fun _ =>
      ⟨Symbol.leads rfl _, blankPiece_leads _, trivial⟩
    have hvalue : ∀ rest, Tiles (f.value.pieces ++ [Symbol.semicolon.piece, blankPiece]) rest :=
      fun rest => tiles_append.2 ⟨f.value.tiled _ (by simp [Symbol.text]), hend _⟩
    rw [List.flatMap_cons]
    refine tiles_append.2 ⟨?_, ih⟩
    rw [declarationPieces, List.append_assoc]
    exact ⟨wordPiece_leads rfl rfl, blankPiece_leads _, f.name.leads rfl, blankPiece_leads _,
      Symbol.assign_leads _, blankPiece_leads _, hvalue _⟩

theorem Listing.tiles (x : Listing) : Tiles x.pieces [] := by
  have hclose : Tiles [Symbol.closeBrace.piece, blankPiece, Symbol.closeBrace.piece] [] :=
    ⟨Symbol.leads rfl _, blankPiece_leads _, Symbol.leads rfl _, trivial⟩
  have hinside := tiles_append.2 ⟨tiles_declarations x.entries _, hclose⟩
  rw [Listing.pieces, List.append_assoc]
  exact ⟨wordPiece_leads rfl rfl, blankPiece_leads _, x.className.leads rfl, blankPiece_leads _,
    Symbol.leads rfl _, blankPiece_leads _, wordPiece_leads rfl rfl, blankPiece_leads _,
    x.methodName.leads rfl, Symbol.leads rfl _, Symbol.leads rfl _, blankPiece_leads _,
    Symbol.leads rfl _, blankPiece_leads _, hinside⟩

/-! ## The tokens of the file -/

/-- The tokens of a declaration, places aside. -/
def declarationFaces (f : WrittenField) : List (TokenKind × String) :=
  (.identifier, "var") :: (f.faces ++ [Symbol.semicolon.face])

theorem faces_declarations (fs : List WrittenField) :
    (fs.flatMap declarationPieces).filterMap Piece.face? = fs.flatMap declarationFaces := by
  induction fs with
  | nil => rfl
  | cons f fs ih =>
    rw [List.flatMap_cons, List.flatMap_cons, List.filterMap_append, ih]
    simp [declarationPieces, declarationFaces, WrittenField.faces, Written.faces,
      List.filterMap_cons]

/-- The tokens of the method, places aside. -/
def Listing.methodFaces (x : Listing) : List (TokenKind × String) :=
  (.identifier, "void") :: (.identifier, x.methodName.text) :: Symbol.openParen.face ::
    Symbol.closeParen.face :: Symbol.openBrace.face ::
    (x.entries.flatMap declarationFaces ++ [Symbol.closeBrace.face])

/-- The tokens of the file, places aside. -/
theorem Listing.faces_pieces (x : Listing) : x.pieces.filterMap Piece.face? =
    (.identifier, "class") :: (.identifier, x.className.text) :: Symbol.openBrace.face ::
      (x.methodFaces ++ [Symbol.closeBrace.face]) := by
  simp [pieces, methodFaces, faces_declarations, List.filterMap_cons]

/-! ## Reading the file -/

/-- The statement declares a variable with the value that was written. -/
def Stmt.Declares (s : Stmt) (f : WrittenField) : Prop :=
  ∃ e span, s = .declaration "var" f.name.text (some e) span ∧ e.Denotes f.value.datum

namespace Parse

/-- A statement that can be read is kept as it is. -/
theorem run_recovering {statement : Parse Stmt} {c d : Cursor} {n m : Nesting} {s : Stmt}
    (h : statement c n = .ok s d m) : recovering statement c n = .ok s d m := by
  simp [recovering, h]

/-- A variable is declared with the expression behind the equals sign. -/
theorem run_localDeclaration {expression : Parse Expr} {name : String}
    (hname : isReserved name = false) {n : Nesting} {l l' stop var nameSpan assign semicolon : Span}
    {ts rest : List Token} {e : Expr} (h : expression ⟨assign, ts, stop⟩ n =
      .ok e ⟨l', Symbol.semicolon.token semicolon :: rest, stop⟩ n) :
    localDeclaration expression ⟨l, ⟨.identifier, "var", var⟩ :: ⟨.identifier, name, nameSpan⟩ ::
        Symbol.assign.token assign :: ts, stop⟩ n =
      .ok (.declaration "var" name (some e) (var.cover semicolon)) ⟨semicolon, rest, stop⟩ n := by
  -- `var` is no reserved word: it is read as the type of the variable
  have hvar : isReserved "var" = false := by decide
  simp [localDeclaration, run_typeName (.inl hvar), hname, h]

/-- A declaration is read with its value. -/
theorem run_declaration {levels : Nat} {f : WrittenField} (h : 2 * f.value.depth + 3 ≤ levels)
    {ts : List Token} (hts : ts.map Token.face = declarationFaces f) (n : Nesting)
    (l stop : Span) (rest : List Token) :
    ∃ s l', statementWithin levels ⟨l, ts ++ rest, stop⟩ n = .ok s ⟨l', rest, stop⟩ n ∧
      s.Declares f := by
  obtain ⟨levels, rfl⟩ := Nat.exists_eq_add_of_le' (Nat.le_of_add_left_le h)
  simp only [declarationFaces, WrittenField.faces, Symbol.face, List.cons_append,
    map_face_eq_cons, List.map_eq_append_iff, List.map_eq_nil_iff] at hts
  obtain ⟨var, _, rfl, name, _, rfl, assign, _, rfl, us, _, rfl, hus, semicolon, _, rfl, rfl⟩ := hts
  have hend : EndsValue (Symbol.semicolon.token semicolon :: rest) := rfl
  have hlevels : 2 * f.value.depth + 2 ≤ levels + 2 := by omega
  obtain ⟨e, l', hrun, he⟩ := f.value.reads hlevels n assign stop hus hend
  refine ⟨_, semicolon, ?_, e, var.cover semicolon, rfl, he⟩
  -- no keyword leads the statement, and a declaration is attempted before an expression
  simp [statementWithin, statementOf, wordStatement, plainStatement,
    run_localDeclaration f.name.free hrun]

/-- Declarations are read up to the brace behind them. -/
theorem run_declarations {levels : Nat} {fs : List WrittenField}
    (h : ∀ f ∈ fs, 2 * f.value.depth + 3 ≤ levels) {ts : List Token}
    (hts : ts.map Token.face = fs.flatMap declarationFaces) {steps : Nat}
    (hsteps : ts.length ≤ steps) (n : Nesting) (l stop opening close : Span) (rest : List Token) :
    ∃ ss l', statementsWithin opening (statementWithin levels) steps
        ⟨l, ts ++ Symbol.closeBrace.token close :: rest, stop⟩ n =
      .ok ss ⟨l', Symbol.closeBrace.token close :: rest, stop⟩ n ∧
        List.Forall₂ (fun f s => s.Declares f) fs ss := by
  induction fs generalizing steps l ts with
  | nil =>
    obtain rfl := List.map_eq_nil_iff.1 hts
    refine ⟨[], l, ?_, .nil⟩
    cases steps <;> simp [statementsWithin]
  | cons f fs ih =>
    obtain ⟨hf, hfs⟩ := List.forall_mem_cons.1 h
    rw [List.flatMap_cons, List.map_eq_append_iff] at hts
    obtain ⟨us, vs, rfl, hus, hvs⟩ := hts
    obtain ⟨s, l', hrun, hs⟩ :=
      run_declaration hf hus n l stop (vs ++ Symbol.closeBrace.token close :: rest)
    obtain ⟨var, us, rfl, -⟩ := map_face_eq_cons.1 hus
    rw [List.cons_append, List.length_cons] at hsteps
    obtain ⟨steps, rfl⟩ := Nat.exists_eq_add_of_le' (Nat.le_of_add_left_le hsteps)
    have hfewer : vs.length ≤ steps := by
      rw [List.length_append] at hsteps
      omega
    obtain ⟨ss, l'', hruns, hss⟩ := ih hfs hvs hfewer l'
    refine ⟨s :: ss, l'', ?_, .cons hs hss⟩
    rw [List.cons_append] at hrun
    have hfirst := @run_recovering (statementWithin levels) _ _ _ _ _ hrun
    simp [statementsWithin, hfirst, hruns]

/-- Declarations in braces are a block. -/
theorem run_block {levels : Nat} {fs : List WrittenField}
    (h : ∀ f ∈ fs, 2 * f.value.depth + 3 ≤ levels) {ts : List Token}
    (hts : ts.map Token.face = fs.flatMap declarationFaces) (n : Nesting)
    (l stop opening close : Span) (rest : List Token) :
    ∃ ss, block (statementWithin levels) ⟨l, Symbol.openBrace.token opening ::
          (ts ++ Symbol.closeBrace.token close :: rest), stop⟩ n =
        .ok (ss, opening.cover close) ⟨close, rest, stop⟩ n ∧
      List.Forall₂ (fun f s => s.Declares f) fs ss := by
  have hsteps : ts.length ≤ (ts ++ Symbol.closeBrace.token close :: rest).length := by
    rw [List.length_append]
    omega
  obtain ⟨ss, l', hrun, hss⟩ := run_declarations h hts hsteps n opening stop opening close rest
  refine ⟨ss, ?_, hss⟩
  simp only [block, run_bind, run_expect, run_bounded, Cursor.peek_cons, Token.isSymbol_mk,
    decide_true, if_true, Cursor.next_cons, hrun]
  simp

end Parse

/-- The method declares the variables of a listing, in order, and does nothing else. -/
def MethodDecl.Holds (m : MethodDecl) (x : Listing) : Prop :=
  m.name = x.methodName.text ∧ ∃ statements span, m.body = some (.block statements span) ∧
    List.Forall₂ (fun f s => s.Declares f) x.entries statements

namespace Parse

/-- The method of a listing is read with its declarations. -/
theorem run_method {limit : Nat} {x : Listing}
    (h : ∀ f ∈ x.entries, 2 * f.value.depth + 3 ≤ limit) {ts : List Token}
    (hts : ts.map Token.face = x.entries.flatMap declarationFaces) (n : Nesting)
    (start : Span) (mods : List String) (stop name openParen closeParen openBrace close : Span)
    (rest : List Token) :
    ∃ m, methodOf (CodeGrammar.within limit) start "void"
        ⟨.identifier, x.methodName.text, name⟩ mods ⟨name, Symbol.openParen.token openParen ::
          Symbol.closeParen.token closeParen :: Symbol.openBrace.token openBrace ::
          (ts ++ Symbol.closeBrace.token close :: rest), stop⟩ n =
        .ok m ⟨close, rest, stop⟩ n ∧ m.Holds x := by
  obtain ⟨statements, hrun, hstatements⟩ := run_block h hts n closeParen stop openBrace close rest
  have hgrammar : (CodeGrammar.within limit).statement = statementWithin limit := rfl
  refine ⟨{ name := x.methodName.text, returnType := "void", parameters := [],
            body := some (.block statements (openBrace.cover close)), modifiers := mods,
            nameSpan := name, span := start.cover close }, ?_, rfl, statements, _, rfl, hstatements⟩
  simp [methodOf, parameters, skipConstraints, hgrammar, hrun]

/-- The only member of a listing's class is its method. -/
theorem run_member {limit : Nat} {x : Listing}
    (h : ∀ f ∈ x.entries, 2 * f.value.depth + 3 ≤ limit) (nested : ClassParse) {ts : List Token}
    (hts : ts.map Token.face = x.methodFaces) (n : Nesting) (l stop : Span) (rest : List Token) :
    ∃ m l', memberOfClass (CodeGrammar.within limit) nested x.className.text
        ⟨l, ts ++ rest, stop⟩ n = .ok { members := [.method m] } ⟨l', rest, stop⟩ n ∧
      m.Holds x := by
  simp only [Listing.methodFaces, Symbol.face, map_face_eq_cons, List.map_eq_append_iff,
    List.map_eq_nil_iff] at hts
  obtain ⟨void, _, rfl, name, _, rfl, openParen, _, rfl, closeParen, _, rfl, openBrace, _, rfl,
    us, _, rfl, hus, close, _, rfl, rfl⟩ := hts
  obtain ⟨m, hrun, hm⟩ := run_method h hus n void [] stop name openParen closeParen openBrace close
    rest
  refine ⟨m, close, ?_, hm⟩
  have hvoid : "void" ∈ typeKeywords := by decide
  have hmodifier : "void" ∉ modifierWords := by decide
  have hname : ∀ word, isReserved word = true → x.methodName.text ≠ word := by
    rintro word hword rfl
    rw [x.methodName.free] at hword
    cases hword
  simp [memberOfClass, run_attributeLists, run_modifiers hmodifier, typedMember,
    run_typeName (.inr hvoid), hname "operator" (by decide), hname "this" (by decide),
    x.methodName.free, memberNameWithin, hrun]

end Parse

/-- The class has the method of a listing, and no other member. -/
def ClassDecl.Holds (c : ClassDecl) (x : Listing) : Prop :=
  c.name = x.className.text ∧ ∃ m, c.members = [.method m] ∧ m.Holds x

namespace Parse

/-- The class of a listing is read with its method. -/
theorem run_class {limit : Nat} {x : Listing}
    (h : ∀ f ∈ x.entries, 2 * f.value.depth + 3 ≤ limit) {ts : List Token}
    (hts : ts.map Token.face = x.pieces.filterMap Piece.face?) (depth : Nat) (start : Span)
    (attributes : List AttributeUse) (mods : List String) (n : Nesting) (l stop : Span) :
    ∃ c l', classWithin (CodeGrammar.within limit) (depth + 1) start attributes mods
        ⟨l, ts, stop⟩ n = .ok [c] ⟨l', [], stop⟩ n ∧ c.Holds x := by
  simp only [Listing.faces_pieces, Symbol.face, map_face_eq_cons, List.map_eq_append_iff,
    List.map_eq_nil_iff] at hts
  obtain ⟨keyword, _, rfl, name, _, rfl, openBrace, _, rfl, us, _, rfl, hus, close, _, rfl, rfl⟩ :=
    hts
  obtain ⟨m, l', hrun, hm⟩ := run_member h (fun s a m c n => classWithin (CodeGrammar.within limit)
    depth s a m c n) hus n openBrace stop [Symbol.closeBrace.token close]
  refine ⟨{ name := x.className.text, attributes, modifiers := mods, baseTypes := [],
            members := [.method m], nameSpan := name, span := start.cover close }, close, ?_, rfl,
            m, rfl, hm⟩
  -- the member starts with a word, so the class does not end in front of it
  obtain ⟨void, us, rfl, -⟩ := map_face_eq_cons.1 hus
  rw [List.cons_append] at hrun
  simp [classWithin, classOf, x.className.free, skipConstraints, membersWithin, hrun,
    ClassParts.append, Token.eof]

/-- The file of a listing holds the class of the listing, and nothing else. -/
theorem run_contents {limit : Nat} {x : Listing}
    (h : ∀ f ∈ x.entries, 2 * f.value.depth + 3 ≤ limit) {ts : List Token}
    (hts : ts.map Token.face = x.pieces.filterMap Piece.face?) (n : Nesting) (l stop : Span) :
    ∃ c l', contents (CodeGrammar.within limit) ⟨l, ts, stop⟩ n =
      .ok { classes := [c] } ⟨l', [], stop⟩ n ∧ c.Holds x := by
  have hclass := hts
  rw [Listing.faces_pieces] at hclass
  obtain ⟨keyword, us, rfl, -⟩ := map_face_eq_cons.1 hclass
  obtain ⟨c, l', hrun, hc⟩ := run_class h hts us.length keyword [] [] n l stop
  refine ⟨c, l', ?_, hc⟩
  have hmodifier : "class" ∉ modifierWords := by decide
  simp [contents, contentsWithin, startsImport, typeDeclaration, run_attributeLists,
    run_modifiers hmodifier, hrun, run_contentsWithin, Contents.append]

end Parse

/-- The tokens of the file of a listing. -/
theorem Listing.scan_code (x : Listing) : ∃ ts stop, scan x.code = .ok (ts, stop) ∧
    ts.map Token.face = x.pieces.filterMap Piece.face? := by
  obtain ⟨ts, stop, hplace⟩ : ∃ ts stop, placeTokens Place.start x.pieces = (ts, stop) :=
    ⟨_, _, rfl⟩
  refine ⟨ts, stop, scan_eq_ok_iff.2 ⟨x.pieces, x.joined_pieces.symm, x.tiles, hplace⟩, ?_⟩
  rw [← placeTokens_face Place.start, hplace]

/-- Values that are nested at most 60 deep survive being written and read: the file of a
    listing is read as a class whose method declares a variable for each value, and the value
    of its initializer is the value that was written, with nothing to report. -/
theorem Listing.parse_values (x : Listing) (h : ∀ f ∈ x.entries, f.value.depth ≤ 60)
    (name : String) :
    ∃ tree c, SourceTree.parse { name, text := x.code } = .ok tree ∧ tree.classes = [c] ∧
      c.Holds x := by
  obtain ⟨ts, stop, hscan, hts⟩ := x.scan_code
  have hlevels : ∀ f ∈ x.entries, 2 * f.value.depth + 3 ≤ SourceTree.nestingLimit := by
    intro f hf
    have hdepth := h f hf
    rw [SourceTree.nestingLimit]
    omega
  obtain ⟨c, l', hrun, hc⟩ := Parse.run_contents hlevels hts
    { limit := SourceTree.nestingLimit } (Cursor.start ts (stop.span [])).last (stop.span [])
  refine ⟨{ classes := [c], file := { name, text := x.code } }, c, ?_, rfl, hc⟩
  have hstart : Parse.contents (.within SourceTree.nestingLimit) (.start ts (stop.span []))
      { limit := SourceTree.nestingLimit } = _ := hrun
  simp only [SourceTree.parse, SourceTree.parseWithin, SourceTree.parseBy, hscan, hstart]

/-- An object with an escaped text, and with a list of a verbatim text and an empty object. -/
def nestedListing : Listing where
  className := ⟨"C", by decide, by decide⟩
  methodName := ⟨"M", by decide, by decide⟩
  entries := [.mk ⟨"x", by decide, by decide⟩ (.object ⟨"T", by decide, by decide⟩
    [.mk ⟨"F", by decide, by decide⟩ (.text .regular "a\"\\\n"),
     .mk ⟨"@new", by decide, by decide⟩ (.list [.text .verbatim "\\\"",
       .object ⟨"U", by decide, by decide⟩ []])])]

/-- The code of the listing, the value that it holds, and that the value is read back. -/
theorem Listing.parse_values_nested :
    nestedListing.code = "class C \x7b void M() \x7b var x = new T \x7b F = \"a\\\"\\\\\\n\", " ++
        "@new = new[] \x7b @\"\\\"\"\", new U \x7b \x7d \x7d \x7d; \x7d \x7d" ∧
      (nestedListing.entries.map fun f => f.value.datum) = [.object (some "T")
        [("F", .text "a\"\\\n"), ("@new", .list none [.text "\\\"", .object (some "U") []])]] ∧
      (∀ f ∈ nestedListing.entries, f.value.depth ≤ 60) ∧
      ∃ tree c, SourceTree.parse { name := "a.cs", text := nestedListing.code } = .ok tree ∧
        tree.classes = [c] ∧ c.Holds nestedListing := by
  have hdepth : ∀ f ∈ nestedListing.entries, f.value.depth ≤ 60 := by decide
  exact ⟨by decide +kernel, rfl, hdepth, Listing.parse_values nestedListing hdepth "a.cs"⟩

end GatewayPolicy
