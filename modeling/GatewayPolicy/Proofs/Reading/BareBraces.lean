import GatewayPolicy.Proofs.Reading.Running

/-! # Braces in braces

  An entry of an initializer may be braces again, without a type in front of them. Reading
  such braces takes no level of nesting, so they may stand inside each other to any depth.

  - `bracesText` is a file with a field whose value is a new object, in whose braces stand so
    many others.
  - `Initializer.Nests` says that braces stand inside each other so deep.
  - `parseWithin_bracesText` reads the file with two levels of nesting.
-/

namespace GatewayPolicy

/-! ## The file -/

/-- Braces with so many others inside. -/
def braceText : Nat → String
  | 0 => "\x7b\x7d"
  | n + 1 => "\x7b" ++ braceText n ++ "\x7d"

/-- A class with a field whose value has so many braces inside its own. -/
def bracesText (n : Nat) : String := "class C \x7b X f = new X " ++ braceText n ++ "; \x7d"

/-- The pieces of braces. -/
def bracePieces : Nat → List Piece
  | 0 => [Symbol.openBrace.piece, Symbol.closeBrace.piece]
  | n + 1 => Symbol.openBrace.piece :: (bracePieces n ++ [Symbol.closeBrace.piece])

/-- The pieces in front of the braces. -/
def leadPieces : List Piece :=
  [wordPiece "class", blankPiece, wordPiece "C", blankPiece, Symbol.openBrace.piece, blankPiece,
    wordPiece "X", blankPiece, wordPiece "f", blankPiece, Symbol.assign.piece, blankPiece,
    wordPiece "new", blankPiece, wordPiece "X", blankPiece]

/-- The pieces of the file. -/
def bracesPieces (n : Nat) : List Piece :=
  leadPieces ++ (bracePieces n ++ [Symbol.semicolon.piece, blankPiece, Symbol.closeBrace.piece])

theorem joined_bracePieces (n : Nat) : joined (bracePieces n) = (braceText n).toList := by
  induction n with
  | zero => decide +kernel
  | succ n ih => simp [bracePieces, braceText, ih, Symbol.text]

theorem joined_bracesPieces (n : Nat) : joined (bracesPieces n) = (bracesText n).toList := by
  have hlead : joined leadPieces = "class C \x7b X f = new X ".toList := by
    simp [leadPieces, Symbol.text]
  have htail : joined [Symbol.semicolon.piece, blankPiece, Symbol.closeBrace.piece] =
      "; \x7d".toList := by decide +kernel
  -- the parts of the text are not looked into
  have htext : ∀ a b c : String, (a ++ b ++ c).toList = a.toList ++ (b.toList ++ c.toList) := by
    intro a b c
    rw [String.toList_append, String.toList_append, List.append_assoc]
  have hparts := htext "class C \x7b X f = new X " (braceText n) "; \x7d"
  rw [← hlead, ← joined_bracePieces, ← htail, ← joined_append, ← joined_append] at hparts
  exact hparts.symm

theorem tiles_bracePieces (n : Nat) (rest : List Char) : Tiles (bracePieces n) rest := by
  induction n generalizing rest with
  | zero => exact ⟨Symbol.leads rfl _, Symbol.leads rfl _, trivial⟩
  | succ n ih => exact ⟨Symbol.leads rfl _, tiles_append.2 ⟨ih _, Symbol.leads rfl _, trivial⟩⟩

theorem tiles_bracesPieces (n : Nat) : Tiles (bracesPieces n) [] := by
  have htail : Tiles [Symbol.semicolon.piece, blankPiece, Symbol.closeBrace.piece] [] :=
    ⟨Symbol.leads rfl _, blankPiece_leads _, Symbol.leads rfl _, trivial⟩
  have hbraces := tiles_append.2 ⟨tiles_bracePieces n _, htail⟩
  exact ⟨wordPiece_leads rfl rfl, blankPiece_leads _, wordPiece_leads rfl rfl, blankPiece_leads _,
    Symbol.leads rfl _, blankPiece_leads _, wordPiece_leads rfl rfl, blankPiece_leads _,
    wordPiece_leads rfl rfl, blankPiece_leads _, Symbol.assign_leads _, blankPiece_leads _,
    wordPiece_leads rfl rfl, blankPiece_leads _, wordPiece_leads rfl rfl, blankPiece_leads _,
    hbraces⟩

/-! ## The tokens of the file -/

/-- The tokens of braces, places aside. -/
def braceFaces : Nat → List (TokenKind × String)
  | 0 => [Symbol.openBrace.face, Symbol.closeBrace.face]
  | n + 1 => Symbol.openBrace.face :: (braceFaces n ++ [Symbol.closeBrace.face])

/-- The tokens of the new object, places aside. -/
def objectFaces (n : Nat) : List (TokenKind × String) :=
  (.identifier, "new") :: (.identifier, "X") :: braceFaces n

/-- The tokens of the field, places aside. -/
def fieldFaces (n : Nat) : List (TokenKind × String) :=
  (.identifier, "X") :: (.identifier, "f") :: Symbol.assign.face ::
    (objectFaces n ++ [Symbol.semicolon.face])

/-- The tokens of the file, places aside. -/
def bracesFaces (n : Nat) : List (TokenKind × String) :=
  (.identifier, "class") :: (.identifier, "C") :: Symbol.openBrace.face ::
    (fieldFaces n ++ [Symbol.closeBrace.face])

/-- An opening brace leads the tokens. -/
theorem braceFaces_eq_cons (n : Nat) : ∃ fs, braceFaces n = Symbol.openBrace.face :: fs := by
  cases n <;> exact ⟨_, rfl⟩

/-- There are more tokens than braces inside each other. -/
theorem lt_length_braceFaces (n : Nat) : n < (braceFaces n).length := by
  induction n with
  | zero => decide
  | succ n ih =>
    rw [braceFaces, List.length_cons, List.length_append]
    omega

theorem faces_bracePieces (n : Nat) : (bracePieces n).filterMap Piece.face? = braceFaces n := by
  induction n with
  | zero => simp [bracePieces, braceFaces]
  | succ n ih => simp [bracePieces, braceFaces, ih]

theorem scan_bracesText (n : Nat) : ∃ ts stop, scan (bracesText n) = .ok (ts, stop) ∧
    ts.map Token.face = bracesFaces n := by
  obtain ⟨ts, stop, hplace⟩ : ∃ ts stop, placeTokens Place.start (bracesPieces n) = (ts, stop) :=
    ⟨_, _, rfl⟩
  refine ⟨ts, stop, scan_eq_ok_iff.2
    ⟨bracesPieces n, (joined_bracesPieces n).symm, tiles_bracesPieces n, hplace⟩, ?_⟩
  have hfaces := placeTokens_face Place.start (bracesPieces n)
  rw [hplace] at hfaces
  rw [hfaces]
  simp [bracesPieces, leadPieces, bracesFaces, fieldFaces, objectFaces, faces_bracePieces,
    List.filterMap_cons]

/-! ## Reading the braces -/

/-- So many braces stand inside these, each alone in the one around it. -/
def Initializer.Nests : Nat → Initializer → Prop
  | 0, _ => True
  | n + 1, braces => ∃ inner span, braces = .elements [.object none none inner span] ∧ inner.Nests n

/-- The expression is a new object of a type, with so many braces inside its own. -/
def Expr.NestsBraces (type : Option String) (n : Nat) (e : Expr) : Prop :=
  ∃ braces span, e = .object type none braces span ∧ braces.Nests n

namespace Parse

/-- Braces are read if those inside are. -/
theorem initializerOf_reads_braces {value : Parse Expr} {n : Nat}
    (h : ∀ m, n = m + 1 → value.Reads (braceFaces m) (Expr.NestsBraces none m)) :
    (initializerOf value).Reads (braceFaces n) (Initializer.Nests n) := by
  intro nesting l stop ts rest hts hend
  cases n with
  | zero =>
    -- empty braces hold no fields
    simp only [braceFaces, Symbol.face, map_face_eq_cons, List.map_eq_nil_iff] at hts
    obtain ⟨opening, _, rfl, close, _, rfl, rfl⟩ := hts
    refine ⟨.fields [], close, ?_, trivial⟩
    simp [initializerOf]
  | succ m =>
    simp only [braceFaces, Symbol.face, map_face_eq_cons, List.map_eq_append_iff,
      List.map_eq_nil_iff] at hts
    obtain ⟨opening, _, rfl, us, _, rfl, hus, close, _, rfl, rfl⟩ := hts
    -- the braces hold one entry, which starts with a brace again
    obtain ⟨fs, hfs⟩ := braceFaces_eq_cons m
    have hitem : ∀ _ ∈ [()], value.Reads (braceFaces m) (Expr.NestsBraces none m) :=
      fun _ _ => h m rfl
    obtain ⟨es, hrun, hes⟩ := itemsUntil_reads hitem (fun _ _ => ⟨_, _, hfs, by decide⟩)
      (by simpa [separated] using hus) nesting opening stop close rest
    obtain ⟨e, _, ⟨inner, span, rfl, hinner⟩, hnil, rfl⟩ := List.forall₂_cons_left_iff.1 hes
    obtain rfl := List.forall₂_nil_left_iff.1 hnil
    refine ⟨_, close, ?_, inner, span, rfl, hinner⟩
    obtain ⟨inside, vs, rfl, -⟩ := map_face_eq_cons.1 (hus.trans hfs)
    rw [List.cons_append] at hrun
    simp [initializerOf, hrun]

/-- Braces are an entry of an initializer, one deeper than the entries inside. -/
theorem run_initializerValueWithin {g : Grammar} {depth : Nat} {l stop opening : Span}
    {ts : List Token} {n m : Nesting} {braces : Initializer} {d : Cursor}
    (h : initializerOf (fun c n => initializerValueWithin g depth c n)
      ⟨l, Symbol.openBrace.token opening :: ts, stop⟩ n = .ok braces d m) :
    initializerValueWithin g (depth + 1) ⟨l, Symbol.openBrace.token opening :: ts, stop⟩ n =
      .ok (.object none none braces (opening.cover d.last)) d m := by
  simp [initializerValueWithin, h]

/-- Braces are read as an entry of an initializer, with any grammar of expressions. -/
theorem initializerValueWithin_reads_braces (g : Grammar) {n depth : Nat} (h : n < depth) :
    Reads (initializerValueWithin g depth) (braceFaces n) (Expr.NestsBraces none n) := by
  induction depth generalizing n with
  | zero => cases h
  | succ depth ih =>
    have hbraces : (initializerOf fun c n => initializerValueWithin g depth c n).Reads
        (braceFaces n) (Initializer.Nests n) := by
      apply initializerOf_reads_braces
      rintro m rfl
      exact ih (Nat.lt_of_succ_lt_succ h)
    intro nesting l stop ts rest hts hend
    obtain ⟨braces, l', hrun, hnests⟩ := hbraces nesting l stop hts hend
    obtain ⟨fs, hfs⟩ := braceFaces_eq_cons n
    obtain ⟨opening, us, rfl, -⟩ := map_face_eq_cons.1 (hts.trans hfs)
    exact ⟨_, l', run_initializerValueWithin hrun, braces, _, rfl, hnests⟩

/-- Braces are read as an entry of an initializer: as deep as there are tokens. -/
theorem initializerValue_reads_braces (g : Grammar) (n : Nat) :
    (initializerValue g).Reads (braceFaces n) (Expr.NestsBraces none n) := by
  intro nesting l stop ts rest hts hend
  have hlength : n < (ts ++ rest).length := by
    have htokens : ts.length = (braceFaces n).length := by rw [← hts, List.length_map]
    have hmore := lt_length_braceFaces n
    rw [List.length_append]
    omega
  exact initializerValueWithin_reads_braces g hlength nesting l stop hts hend

/-- The new object is read with its braces. -/
theorem primary_reads_braces (g : Grammar) (n : Nat) :
    (primary g).Reads (objectFaces n) (Expr.NestsBraces (some "X") n) := by
  have hbraces : (initializerOf (initializerValue g)).Reads (braceFaces n) (Initializer.Nests n) :=
    initializerOf_reads_braces fun m _ => initializerValue_reads_braces g m
  intro nesting l stop ts rest hts hend
  simp only [objectFaces, map_face_eq_cons] at hts
  obtain ⟨new, _, rfl, type, us, rfl, hus⟩ := hts
  obtain ⟨braces, l', hrun, hnests⟩ := hbraces nesting type stop hus hend
  refine ⟨_, l', ?_, braces, new.cover l', rfl, hnests⟩
  obtain ⟨fs, hfs⟩ := braceFaces_eq_cons n
  obtain ⟨opening, vs, rfl, -⟩ := map_face_eq_cons.1 (hus.trans hfs)
  have hfree : isReserved "X" = false := by decide
  rw [List.cons_append] at hrun
  simp [primary, wordExpression, newExpression, run_typeName (.inl hfree), newObject, hrun]

end Parse

/-! ## Reading the file -/

/-- The member is a field with a value that has so many braces inside its own. -/
def Member.NestsBraces (n : Nat) (m : Member) : Prop :=
  ∃ field e, m = .field field ∧ field.initializer = some e ∧ e.NestsBraces (some "X") n

namespace Parse

/-- The field is read with its value, where two levels of nesting are allowed. -/
theorem run_braceField (limit n : Nat) (nested : ClassParse) {ts : List Token}
    (hts : ts.map Token.face = fieldFaces n) (nesting : Nesting) (l stop : Span)
    (rest : List Token) :
    ∃ m l', memberOfClass (CodeGrammar.within (limit + 2)) nested "C" ⟨l, ts ++ rest, stop⟩
        nesting = .ok { members := [m] } ⟨l', rest, stop⟩ nesting ∧ m.NestsBraces n := by
  simp only [fieldFaces, Symbol.face, map_face_eq_cons, List.map_eq_append_iff,
    List.map_eq_nil_iff] at hts
  obtain ⟨type, _, rfl, name, _, rfl, assign, _, rfl, us, _, rfl, hus, semicolon, _, rfl, rfl⟩ :=
    hts
  have hstart : StartsValue (objectFaces n) := ⟨_, _, rfl, fun _ => rfl⟩
  have hend : EndsValue (Symbol.semicolon.token semicolon :: rest) := rfl
  -- one level goes to the value and one to the operand that it consists of
  obtain ⟨e, l', hrun, he⟩ := assignment_reads (primary_reads_braces (Grammar.within limit) n)
    hstart nesting assign stop hus hend
  have hgrammar : (CodeGrammar.within (limit + 2)).assignment =
    (Grammar.within (limit + 2)).assignment := rfl
  refine ⟨.field { name := "f", type := "X", isConst := false, initializer := some e,
                   span := name.cover l' }, semicolon, ?_, _, e, rfl, rfl, he⟩
  have hmodifier : "X" ∉ modifierWords := by decide
  have htype : isReserved "X" = false := by decide
  have hname : isReserved "f" = false := by decide
  simp [memberOfClass, run_attributeLists, run_modifiers hmodifier, typedMember,
    run_typeName (.inl htype), hname, memberNameWithin, fields, fieldsWithin, fieldInitializer,
    hgrammar, hrun]

/-- The class is read with its field. -/
theorem run_braceClass (limit n : Nat) {ts : List Token} (hts : ts.map Token.face = bracesFaces n)
    (depth : Nat) (start : Span) (nesting : Nesting) (l stop : Span) :
    ∃ c m l', classWithin (CodeGrammar.within (limit + 2)) (depth + 1) start [] []
        ⟨l, ts, stop⟩ nesting = .ok [c] ⟨l', [], stop⟩ nesting ∧ c.attributes = [] ∧
      c.members = [m] ∧ m.NestsBraces n := by
  simp only [bracesFaces, Symbol.face, map_face_eq_cons, List.map_eq_append_iff,
    List.map_eq_nil_iff] at hts
  obtain ⟨keyword, _, rfl, name, _, rfl, openBrace, _, rfl, us, _, rfl, hus, close, _, rfl, rfl⟩ :=
    hts
  obtain ⟨m, l', hrun, hm⟩ := run_braceField limit n
    (fun s a m c n => classWithin (CodeGrammar.within (limit + 2)) depth s a m c n) hus nesting
    openBrace stop [Symbol.closeBrace.token close]
  refine ⟨{ name := "C", attributes := [], modifiers := [], baseTypes := [], members := [m],
            nameSpan := name, span := start.cover close }, m, close, ?_, rfl, rfl, hm⟩
  obtain ⟨type, us, rfl, -⟩ := map_face_eq_cons.1 hus
  have hfree : isReserved "C" = false := by decide
  rw [List.cons_append] at hrun
  simp [classWithin, classOf, hfree, skipConstraints, membersWithin, hrun, ClassParts.append,
    Token.eof]

end Parse

/-- The file is read with two levels of nesting, whatever the number of braces. -/
theorem SourceTree.parseWithin_bracesText (limit n : Nat) (name : String) :
    ∃ tree c m, parseWithin (limit + 2) { name, text := bracesText n } = .ok tree ∧
      tree.classes = [c] ∧ c.members = [m] ∧ m.NestsBraces n := by
  obtain ⟨ts, stop, hscan, hts⟩ := scan_bracesText n
  have hkeyword := hts
  rw [bracesFaces] at hkeyword
  obtain ⟨keyword, us, rfl, -⟩ := map_face_eq_cons.1 hkeyword
  obtain ⟨c, m, l', hrun, -, hmembers, hm⟩ := Parse.run_braceClass limit n hts us.length keyword
    { limit := limit + 2 } keyword (stop.span [])
  refine ⟨{ classes := [c], file := { name, text := bracesText n } }, c, m, ?_, rfl, hmembers, hm⟩
  have hmodifier : "class" ∉ Parse.modifierWords := by decide
  have hcontents : Parse.contents (.within (limit + 2))
      (.start (⟨.identifier, "class", keyword⟩ :: us) (stop.span [])) { limit := limit + 2 } =
      .ok { classes := [c] } ⟨l', [], stop.span []⟩ { limit := limit + 2 } := by
    simp [Cursor.start, Parse.contents, Parse.contentsWithin, Parse.startsImport,
      Parse.typeDeclaration, Parse.run_attributeLists, Parse.run_modifiers hmodifier, hrun,
      Parse.run_contentsWithin, Contents.append]
  simp only [parseWithin, parseBy, hscan, hcontents]

end GatewayPolicy
