import GatewayPolicy.Policy.Extract
import GatewayPolicy.Proofs.Reading.Running

/-! # Values that are written out

  A configuration value can be written as code: texts as literals, objects with their
  fields in braces, and lists as arrays. Reading such code as an expression and taking the
  value of the expression gives the value that was written.

  - `Datum` is a configuration value without places, and `Written` is such a value with a
    way to spell each of its texts.
  - `Written.code` is the code, and `Written.tiled` says of which pieces it consists.
  - `Written.reads` says that the code is read as an expression of the value.
-/

namespace GatewayPolicy

/-! ## Values and their code -/

/-- A configuration value, places aside. -/
inductive Datum where
  | text (text : String)
  | object (type : Option String) (fields : List (String × Datum))
  | list (type : Option String) (elements : List Datum)

mutual

/-- A value without its places. -/
def Value.datum : Value → Datum
  | .single text _ => .text text
  | .named type fields _ => .object type (Value.datumOfFields fields)
  | .positional type elements _ => .list type (Value.datumOfAll elements)

/-- Fields without their places. -/
def Value.datumOfFields : List (String × Value) → List (String × Datum)
  | [] => []
  | field :: fields => Value.datumOfField field :: Value.datumOfFields fields

/-- A field without its places. -/
def Value.datumOfField : String × Value → String × Datum
  | (name, v) => (name, v.datum)

/-- Elements without their places. -/
def Value.datumOfAll : List Value → List Datum
  | [] => []
  | v :: vs => v.datum :: Value.datumOfAll vs

end

mutual

/-- A value as it is written. -/
inductive Written where
  | text (quote : Quote) (text : String)
  | object (type : PlainName) (fields : List WrittenField)
  | list (elements : List Written)

/-- A field as it is written. -/
inductive WrittenField where
  | mk (name : PlainName) (value : Written)

end

/-- The name of a field. -/
def WrittenField.name : WrittenField → PlainName
  | .mk name _ => name

/-- The value of a field. -/
def WrittenField.value : WrittenField → Written
  | .mk _ v => v

mutual

/-- The value that is written. -/
def Written.datum : Written → Datum
  | .text _ s => .text s
  | .object type fields => .object (some type.text) (Written.datumOfFields fields)
  | .list elements => .list none (Written.datumOfAll elements)

/-- The fields that are written. -/
def Written.datumOfFields : List WrittenField → List (String × Datum)
  | [] => []
  | .mk name v :: fields => (name.text, v.datum) :: Written.datumOfFields fields

/-- The elements that are written. -/
def Written.datumOfAll : List Written → List Datum
  | [] => []
  | v :: vs => v.datum :: Written.datumOfAll vs

end

mutual

/-- How deeply objects and lists are nested in a value. -/
def Written.depth : Written → Nat
  | .text .. => 0
  | .object _ fields => Written.depthOfFields fields + 1
  | .list elements => Written.depthOfAll elements + 1

/-- The depth of the deepest field. -/
def Written.depthOfFields : List WrittenField → Nat
  | [] => 0
  | .mk _ v :: fields => max v.depth (Written.depthOfFields fields)

/-- The depth of the deepest element. -/
def Written.depthOfAll : List Written → Nat
  | [] => 0
  | v :: vs => max v.depth (Written.depthOfAll vs)

end

/-- What stands behind an entry in braces: a comma if there are more, and a blank. -/
def entryEnd (more : Bool) : String := if more then ", " else " "

mutual

/-- The code of a value. -/
def Written.code : Written → String
  | .text quote s => quote.code s
  | .object type fields => "new " ++ type.text ++ " \x7b " ++ Written.codeOfFields fields ++ "\x7d"
  | .list elements => "new[] \x7b " ++ Written.codeOfAll elements ++ "\x7d"

/-- The code of some fields. -/
def Written.codeOfFields : List WrittenField → String
  | [] => ""
  | .mk name v :: fields =>
    name.text ++ " = " ++ v.code ++ entryEnd (!fields.isEmpty) ++ Written.codeOfFields fields

/-- The code of some elements. -/
def Written.codeOfAll : List Written → String
  | [] => ""
  | v :: vs => v.code ++ entryEnd (!vs.isEmpty) ++ Written.codeOfAll vs

end

/-! ## The pieces of the code -/

/-- The pieces behind an entry in braces. -/
def entryEndPieces (more : Bool) : List Piece :=
  if more then [Symbol.comma.piece, blankPiece] else [blankPiece]

mutual

/-- The pieces of the code of a value. -/
def Written.pieces : Written → List Piece
  | .text quote s => [quote.piece s]
  | .object type fields =>
    [wordPiece "new", blankPiece, wordPiece type.text, blankPiece, Symbol.openBrace.piece,
      blankPiece] ++ Written.piecesOfFields fields ++ [Symbol.closeBrace.piece]
  | .list elements =>
    [wordPiece "new", Symbol.openBracket.piece, Symbol.closeBracket.piece, blankPiece,
      Symbol.openBrace.piece, blankPiece] ++ Written.piecesOfAll elements ++
      [Symbol.closeBrace.piece]

/-- The pieces of the code of some fields. -/
def Written.piecesOfFields : List WrittenField → List Piece
  | [] => []
  | .mk name v :: fields =>
    [wordPiece name.text, blankPiece, Symbol.assign.piece, blankPiece] ++ v.pieces ++
      entryEndPieces (!fields.isEmpty) ++ Written.piecesOfFields fields

/-- The pieces of the code of some elements. -/
def Written.piecesOfAll : List Written → List Piece
  | [] => []
  | v :: vs => v.pieces ++ entryEndPieces (!vs.isEmpty) ++ Written.piecesOfAll vs

end

/-- A property of every value, from what it is made of. Values stand in lists and in fields,
    so that the recursor has a motive for each of these. -/
theorem Written.induction {P : Written → Prop} (text : ∀ quote text, P (.text quote text))
    (object : ∀ type fields, (∀ f ∈ fields, P f.value) → P (.object type fields))
    (list : ∀ elements, (∀ v ∈ elements, P v) → P (.list elements)) (w : Written) : P w :=
  @Written.rec P (fun f => P f.value) (fun fields => ∀ f ∈ fields, P f.value)
    (fun elements => ∀ v ∈ elements, P v) text object list (fun _ _ h => h)
    (List.forall_mem_nil _) (fun _ _ hf hfs => List.forall_mem_cons.2 ⟨hf, hfs⟩)
    (List.forall_mem_nil _) (fun _ _ hv hvs => List.forall_mem_cons.2 ⟨hv, hvs⟩) w

@[simp] theorem joined_entryEndPieces (more : Bool) :
    joined (entryEndPieces more) = (entryEnd more).toList := by
  cases more <;> rfl

theorem joined_piecesOfFields {fields : List WrittenField}
    (h : ∀ f ∈ fields, joined f.value.pieces = f.value.code.toList) :
    joined (Written.piecesOfFields fields) = (Written.codeOfFields fields).toList := by
  induction fields with
  | nil => rfl
  | cons f fields ih =>
    obtain ⟨name, v⟩ := f
    obtain ⟨hv, hrest⟩ := List.forall_mem_cons.1 h
    have hv : joined v.pieces = v.code.toList := hv
    simp [Written.piecesOfFields, Written.codeOfFields, hv, ih hrest, Symbol.text]

theorem joined_piecesOfAll {vs : List Written} (h : ∀ v ∈ vs, joined v.pieces = v.code.toList) :
    joined (Written.piecesOfAll vs) = (Written.codeOfAll vs).toList := by
  induction vs with
  | nil => rfl
  | cons v vs ih =>
    obtain ⟨hv, hrest⟩ := List.forall_mem_cons.1 h
    simp [Written.piecesOfAll, Written.codeOfAll, hv, ih hrest]

/-- The pieces, joined, are the code. -/
theorem Written.joined_pieces (w : Written) : joined w.pieces = w.code.toList := by
  induction w using Written.induction with
  | text quote s => simp [Written.pieces, Written.code, Quote.piece]
  | object type fields ih =>
    simp [Written.pieces, Written.code, joined_piecesOfFields ih, Symbol.text]
  | list elements ih =>
    simp [Written.pieces, Written.code, joined_piecesOfAll ih, Symbol.text]

/-! ## The pieces tile the code -/

/-- The pieces of a value tile in front of whatever is no quote. -/
def Written.Tiled (w : Written) : Prop :=
  ∀ rest : List Char, rest.head? ≠ some '"' → Tiles w.pieces rest

/-- An entry tiles in front of the entries behind it: no quote follows its value. -/
theorem Written.Tiled.entry {w : Written} (h : w.Tiled) (more : Bool) {ps : List Piece}
    {rest : List Char} (hps : Tiles ps rest) :
    Tiles (w.pieces ++ (entryEndPieces more ++ ps)) rest := by
  apply tiles_append.2
  constructor
  · apply h
    cases more <;> simp [entryEnd]
  · apply tiles_append.2
    refine ⟨?_, hps⟩
    cases more with
    | true => exact ⟨Symbol.leads rfl _, blankPiece_leads _, trivial⟩
    | false => exact ⟨blankPiece_leads _, trivial⟩

theorem tiles_piecesOfFields {fields : List WrittenField} (h : ∀ f ∈ fields, f.value.Tiled)
    (rest : List Char) : Tiles (Written.piecesOfFields fields) rest := by
  induction fields with
  | nil => trivial
  | cons f fields ih =>
    obtain ⟨name, v⟩ := f
    obtain ⟨hv, hrest⟩ := List.forall_mem_cons.1 h
    rw [Written.piecesOfFields, List.append_assoc, List.append_assoc]
    exact ⟨name.leads rfl, blankPiece_leads _, Symbol.assign_leads _, blankPiece_leads _,
      hv.entry _ (ih hrest)⟩

theorem tiles_piecesOfAll {vs : List Written} (h : ∀ v ∈ vs, v.Tiled) (rest : List Char) :
    Tiles (Written.piecesOfAll vs) rest := by
  induction vs with
  | nil => trivial
  | cons v vs ih =>
    obtain ⟨hv, hrest⟩ := List.forall_mem_cons.1 h
    rw [Written.piecesOfAll, List.append_assoc]
    exact hv.entry _ (ih hrest)

/-- The pieces of a value tile, whatever value it is. -/
theorem Written.tiled (w : Written) : w.Tiled := by
  intro rest hrest
  induction w using Written.induction generalizing rest with
  | text quote s => exact ⟨quote.leads s hrest, trivial⟩
  | object type fields ih =>
    have hclose : Tiles [Symbol.closeBrace.piece] rest := ⟨Symbol.leads rfl _, trivial⟩
    have hinside := tiles_append.2 ⟨tiles_piecesOfFields ih _, hclose⟩
    rw [Written.pieces, List.append_assoc]
    exact ⟨wordPiece_leads rfl rfl, blankPiece_leads _, type.leads rfl, blankPiece_leads _,
      Symbol.leads rfl _, blankPiece_leads _, hinside⟩
  | list elements ih =>
    have hclose : Tiles [Symbol.closeBrace.piece] rest := ⟨Symbol.leads rfl _, trivial⟩
    have hinside := tiles_append.2 ⟨tiles_piecesOfAll ih _, hclose⟩
    rw [Written.pieces, List.append_assoc]
    exact ⟨wordPiece_leads rfl rfl, Symbol.leads rfl _, Symbol.leads rfl _, blankPiece_leads _,
      Symbol.leads rfl _, blankPiece_leads _, hinside⟩

/-! ## The tokens of the code -/

/-- The tokens of the code of a value, places aside. -/
def Written.faces (w : Written) : List (TokenKind × String) := w.pieces.filterMap Piece.face?

/-- The tokens of the code of a field, places aside. -/
def WrittenField.faces (f : WrittenField) : List (TokenKind × String) :=
  (.identifier, f.name.text) :: Symbol.assign.face :: f.value.faces

section Faces

theorem faces_entryEndPieces {α : Type} (rest : List α) :
    (entryEndPieces (!rest.isEmpty)).filterMap Piece.face? =
      if rest.isEmpty then [] else [Symbol.comma.face] := by
  cases rest <;> simp [entryEndPieces]

theorem faces_piecesOfFields (fields : List WrittenField) :
    (Written.piecesOfFields fields).filterMap Piece.face? =
      separated (fields.map WrittenField.faces) := by
  induction fields with
  | nil => rfl
  | cons f fields ih =>
    obtain ⟨name, v⟩ := f
    simp [Written.piecesOfFields, separated, WrittenField.faces, Written.faces, ih,
      faces_entryEndPieces, WrittenField.name, WrittenField.value, List.filterMap_cons]

theorem faces_piecesOfAll (vs : List Written) :
    (Written.piecesOfAll vs).filterMap Piece.face? = separated (vs.map Written.faces) := by
  induction vs with
  | nil => rfl
  | cons v vs ih =>
    simp [Written.piecesOfAll, separated, Written.faces, ih, faces_entryEndPieces]

end Faces

namespace Written

theorem faces_text (quote : Quote) (s : String) :
    (text quote s).faces = [(quote.kind, quote.code s)] := by
  simp [faces, pieces]

theorem faces_object (type : PlainName) (fields : List WrittenField) :
    (object type fields).faces = (.identifier, "new") :: (.identifier, type.text) ::
      Symbol.openBrace.face :: (separated (fields.map WrittenField.faces) ++
        [Symbol.closeBrace.face]) := by
  simp [faces, pieces, faces_piecesOfFields, List.filterMap_cons]

theorem faces_list (elements : List Written) :
    (list elements).faces = (.identifier, "new") :: Symbol.openBracket.face ::
      Symbol.closeBracket.face :: Symbol.openBrace.face ::
        (separated (elements.map Written.faces) ++ [Symbol.closeBrace.face]) := by
  simp [faces, pieces, faces_piecesOfAll, List.filterMap_cons]

end Written

/-! ## Expressions of values -/

/-- The expression has the value wherever it stands, and nothing is reported. -/
def Expr.Denotes (e : Expr) (d : Datum) : Prop :=
  ∀ (site : Site) (b : Bindings),
    (extract site b e).value.datum = d ∧ (extract site b e).diagnostics = []

/-- The field has the name and the value of a field that is written. -/
def FieldValue.Denotes (v : FieldValue) (f : WrittenField) : Prop :=
  ∃ e span, v = .mk f.name.text e span ∧ e.Denotes f.value.datum

theorem denotes_literal (s : String) (span : Span) :
    (Expr.literal { kind := .string, value := s, span }).Denotes (.text s) := by
  intro site b
  simp [extract, Value.datum]

theorem extractAll_denotes {vs : List Written} {es : List Expr}
    (h : List.Forall₂ (fun v e => e.Denotes v.datum) vs es) (site : Site) (b : Bindings) :
    Value.datumOfAll (extractAll site b es).value = Written.datumOfAll vs ∧
      (extractAll site b es).diagnostics = [] := by
  induction h with
  | nil => simp [extractAll, Value.datumOfAll, Written.datumOfAll]
  | cons hv _ ih =>
    obtain ⟨hvalue, hdiagnostics⟩ := hv site b
    simp [extractAll, Value.datumOfAll, Written.datumOfAll, hvalue, hdiagnostics, ih]

theorem extractFields_denotes {fields : List WrittenField} {fs : List FieldValue}
    (h : List.Forall₂ (fun f v => v.Denotes f) fields fs) (site : Site) (b : Bindings) :
    Value.datumOfFields (extractFields site b fs).value = Written.datumOfFields fields ∧
      (extractFields site b fs).diagnostics = [] := by
  induction h with
  | nil => simp [extractFields, Value.datumOfFields, Written.datumOfFields]
  | @cons f v fields fs hv _ ih =>
    obtain ⟨name, w⟩ := f
    obtain ⟨e, span, rfl, he⟩ := hv
    obtain ⟨hvalue, hdiagnostics⟩ := he site b
    simp [extractFields, Value.datumOfFields, Value.datumOfField, Written.datumOfFields, hvalue,
      hdiagnostics, ih, WrittenField.name, WrittenField.value]

theorem denotes_array {vs : List Written} {es : List Expr}
    (h : List.Forall₂ (fun v e => e.Denotes v.datum) vs es) (span : Span) :
    (Expr.array none es span).Denotes (Written.list vs).datum := by
  intro site b
  simp [extract, Value.datum, Written.datum, extractAll_denotes h site b]

theorem denotes_object (type : PlainName) {fields : List WrittenField} {fs : List FieldValue}
    (h : List.Forall₂ (fun f v => v.Denotes f) fields fs) (span : Span) :
    (Expr.object (some type.text) none (.fields fs) span).Denotes
      (Written.object type fields).datum := by
  intro site b
  simp [extract, Value.datum, Written.datum, extractFields_denotes h site b]

/-! ## Reading the code -/

namespace Written

theorem depth_le_depthOfAll {vs : List Written} : ∀ v ∈ vs, v.depth ≤ depthOfAll vs := by
  induction vs with
  | nil => exact List.forall_mem_nil _
  | cons v vs ih =>
    intro u hu
    rw [depthOfAll]
    rcases List.mem_cons.1 hu with rfl | hu
    · exact Nat.le_max_left _ _
    · exact Nat.le_trans (ih u hu) (Nat.le_max_right _ _)

theorem depth_le_depthOfFields {fields : List WrittenField} :
    ∀ f ∈ fields, f.value.depth ≤ depthOfFields fields := by
  induction fields with
  | nil => exact List.forall_mem_nil _
  | cons f fields ih =>
    obtain ⟨name, v⟩ := f
    intro u hu
    rw [depthOfFields]
    rcases List.mem_cons.1 hu with rfl | hu
    · exact Nat.le_max_left _ _
    · exact Nat.le_trans (ih u hu) (Nat.le_max_right _ _)

open Parse

/-- The code of a value starts with a literal or `new`. -/
theorem startsValue_faces (w : Written) : StartsValue w.faces := by
  cases w with
  | text quote s =>
    refine ⟨_, _, faces_text quote s, ?_⟩
    cases quote <;> exact fun _ => rfl
  | object type fields => exact ⟨_, _, faces_object type fields, fun _ => rfl⟩
  | list elements => exact ⟨_, _, faces_list elements, fun _ => rfl⟩

/-- A literal is read as the text that it spells. -/
theorem primary_reads_text (g : Grammar) (quote : Quote) (s : String) :
    (primary g).Reads (text quote s).faces (·.Denotes (text quote s).datum) := by
  intro n l stop ts rest hts hend
  simp only [faces_text, map_face_eq_cons, List.map_eq_nil_iff] at hts
  obtain ⟨span, _, rfl, rfl⟩ := hts
  refine ⟨_, span, ?_, denotes_literal s span⟩
  cases quote with
  | regular => simp [primary, literalOf, Quote.kind, Quote.stringOf_regular]
  | verbatim => simp [primary, literalOf, Quote.kind, Quote.verbatimOf_verbatim]

/-- An array is read with its elements. -/
theorem primary_reads_list {g : Grammar} {elements : List Written}
    (h : ∀ v ∈ elements, g.assignment.Reads v.faces (·.Denotes v.datum)) :
    (primary g).Reads (list elements).faces (·.Denotes (list elements).datum) := by
  intro n l stop ts rest hts hend
  simp only [faces_list, Symbol.face, map_face_eq_cons, List.map_eq_append_iff,
    List.map_eq_nil_iff] at hts
  obtain ⟨new, _, rfl, openBracket, _, rfl, closeBracket, _, rfl, openBrace, _, rfl, us, _, rfl,
    hus, close, _, rfl, rfl⟩ := hts
  have hitem : ∀ v ∈ elements, (initializerValue g).Reads v.faces (·.Denotes v.datum) :=
    fun v hv => initializerValue_reads (h v hv) v.startsValue_faces
  obtain ⟨es, hrun, hes⟩ := itemsUntil_reads hitem (fun v _ => v.startsValue_faces.head .closeBrace)
    hus n openBrace stop close rest
  refine ⟨_, close, ?_, denotes_array hes (new.cover close)⟩
  simp [primary, wordExpression, newExpression, skipGroup, Token.closing?, Symbol.closing?,
    closeGroup, Parse.elements, hrun]

/-- Fields in braces are read as fields: the first entry is a name with an equals sign
    behind it, if there is one. -/
theorem initializerOf_reads {value : Parse Expr} {fields : List WrittenField}
    (h : ∀ f ∈ fields, (fieldValue value).Reads f.faces (·.Denotes f)) {ts : List Token}
    (hts : ts.map Token.face = separated (fields.map WrittenField.faces)) (n : Nesting)
    (l stop openBrace close : Span) (rest : List Token) :
    ∃ fs, initializerOf value ⟨l, Symbol.openBrace.token openBrace ::
          (ts ++ Symbol.closeBrace.token close :: rest), stop⟩ n =
        .ok (.fields fs) ⟨close, rest, stop⟩ n ∧
      List.Forall₂ (fun f v => v.Denotes f) fields fs := by
  have hstart : ∀ f ∈ fields, ∃ g fs, f.faces = g :: fs ∧ g.1 ≠ .symbol .closeBrace := by
    intro f _
    exact ⟨_, _, rfl, by simp⟩
  obtain ⟨fs, hrun, hfs⟩ := itemsUntil_reads h hstart hts n openBrace stop close rest
  refine ⟨fs, ?_, hfs⟩
  -- without entries the braces hold no fields, and what they hold is not looked at
  cases hfs with
  | nil =>
    obtain rfl := List.map_eq_nil_iff.1 hts
    simp [initializerOf]
  | @cons f v fields fs hv hfs =>
    rw [List.map_cons, separated, WrittenField.faces, List.append_assoc, List.cons_append,
      List.cons_append] at hts
    simp only [Symbol.face, map_face_eq_cons] at hts
    obtain ⟨name, _, rfl, assign, us, rfl, -⟩ := hts
    rw [List.cons_append, List.cons_append] at hrun
    simp [initializerOf, hrun]

/-- An object is read with its fields. -/
theorem primary_reads_object {g : Grammar} {type : PlainName} {fields : List WrittenField}
    (h : ∀ f ∈ fields, g.assignment.Reads f.value.faces (·.Denotes f.value.datum)) :
    (primary g).Reads (object type fields).faces (·.Denotes (object type fields).datum) := by
  intro n l stop ts rest hts hend
  simp only [faces_object, Symbol.face, map_face_eq_cons, List.map_eq_append_iff,
    List.map_eq_nil_iff] at hts
  obtain ⟨new, _, rfl, name, _, rfl, openBrace, _, rfl, us, _, rfl, hus, close, _, rfl, rfl⟩ := hts
  have hitem : ∀ f ∈ fields, (fieldValue (initializerValue g)).Reads f.faces (·.Denotes f) := by
    intro f hf
    have hvalue := initializerValue_reads (h f hf) f.value.startsValue_faces
    exact fieldValue_reads hvalue f.name.free
  obtain ⟨fs, hrun, hfs⟩ := initializerOf_reads hitem hus n name stop openBrace close rest
  refine ⟨_, close, ?_, denotes_object type hfs (new.cover close)⟩
  -- the type is one name, which does not end like an array type
  have harray : type.text.toList.getLast? ≠ some ']' := by
    intro hlast
    have hcontinues := continuesName_of_getLast? type.spelt hlast
    cases hcontinues
  simp [primary, wordExpression, newExpression, run_typeName (.inl type.free), harray, newObject,
    hrun]

/-- Where enough levels of nesting are allowed, the code of a value is read as an expression
    of the value. -/
theorem reads (w : Written) {levels : Nat} (h : 2 * w.depth + 2 ≤ levels) :
    (Grammar.within levels).assignment.Reads w.faces (·.Denotes w.datum) := by
  -- a value inside another is one level less deep, and two levels further in the grammar
  induction w using Written.induction generalizing levels with
  | text quote s =>
    obtain ⟨inner, rfl⟩ := Nat.exists_eq_add_of_le' (Nat.le_of_add_left_le h)
    exact assignment_reads (primary_reads_text _ quote s) (startsValue_faces _)
  | object type fields ih =>
    obtain ⟨inner, rfl⟩ := Nat.exists_eq_add_of_le' (Nat.le_of_add_left_le h)
    refine assignment_reads (primary_reads_object ?_) (startsValue_faces _)
    intro f hf
    have hdepth := depth_le_depthOfFields f hf
    apply ih f hf
    rw [depth] at h
    omega
  | list elements ih =>
    obtain ⟨inner, rfl⟩ := Nat.exists_eq_add_of_le' (Nat.le_of_add_left_le h)
    refine assignment_reads (primary_reads_list ?_) (startsValue_faces _)
    intro v hv
    have hdepth := depth_le_depthOfAll v hv
    apply ih v hv
    rw [depth] at h
    omega

end Written

end GatewayPolicy
