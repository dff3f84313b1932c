import GatewayPolicy.Authoring.Declaration
import GatewayPolicy.Authoring.Literal
import GatewayPolicy.Proofs.Reading.Alignment

/-! # Trees that correspond

  Two trees correspond when they are equal but for the places in them, and the
  places correspond. What is later copied from the text is kept more closely:

  - the place of a literal is that of one token, and a number stands for the
    digits of a token;
  - a name that is looked up is the text of one token;
  - the place of a method's block reaches from a brace to a brace;
  - the name of a local variable is the text of one token.
-/

namespace GatewayPolicy

/-! ## Expressions -/

/-- A text that is read from a number in both files. -/
def Alignment.Numeral (a : Alignment) (value : String) : Prop :=
  ∃ t t', a.token t t' ∧ (t.kind = .integer ∨ t.kind = .real) ∧ value = digitsOf t.text

/-- A text that is a word in both files, be it a name or a keyword. -/
def Alignment.Word (a : Alignment) (n : String) : Prop :=
  ∃ t t', a.token t t' ∧ t.isIdentifier = true ∧ t.text = n

/-- Literals with the same text, each read from one token. -/
structure Literal.Aligned (a : Alignment) (l l' : Literal) : Prop where
  kind : l.kind = l'.kind
  value : l.value = l'.value
  token : ∃ t t', a.token t t' ∧ t.isEof = false ∧ l.span = t.span ∧ l'.span = t'.span
  word : l.kind = .boolean → l.value = "true" ∨ l.value = "false"
  numeral : l.kind = .number → a.Numeral l.value

mutual

/-- Expressions that correspond. -/
inductive Expr.Aligned (a : Alignment) : Expr → Expr → Prop where
  | literal {l l' : Literal} (h : l.Aligned a l') : Expr.Aligned a (.literal l) (.literal l')
  | name {n : String} {s s' : Span} (word : a.Word n) (span : a.span s s') :
      Expr.Aligned a (.name n s) (.name n s')
  | member {e e' : Expr} {n : String} (conditional : Bool) {s s' : Span} (word : a.Word n)
      (target : Expr.Aligned a e e') (span : a.span s s') :
      Expr.Aligned a (.member e n conditional s) (.member e' n conditional s')
  | call {e e' : Expr} (types : List String) {as as' : List Argument} {s s' : Span}
      (target : Expr.Aligned a e e') (arguments : List.Forall₂ (Argument.Aligned a) as as')
      (span : a.span s s') : Expr.Aligned a (.call e types as s) (.call e' types as' s')
  | index {e e' : Expr} {as as' : List Argument} {s s' : Span}
      (target : Expr.Aligned a e e') (arguments : List.Forall₂ (Argument.Aligned a) as as')
      (span : a.span s s') : Expr.Aligned a (.index e as s) (.index e' as' s')
  | object (type : Option String) {as as' : Option (List Argument)} {i i' : Initializer}
      {s s' : Span} (arguments : Option.Rel (List.Forall₂ (Argument.Aligned a)) as as')
      (initializer : Initializer.Aligned a i i') (span : a.span s s') :
      Expr.Aligned a (.object type as i s) (.object type as' i' s')
  | array (type : Option String) {es es' : List Expr} {s s' : Span}
      (elements : List.Forall₂ (Expr.Aligned a) es es') (span : a.span s s') :
      Expr.Aligned a (.array type es s) (.array type es' s')
  | lambda (parameters : List String) {e e' : Expr} {s s' : Span} (body : Expr.Aligned a e e')
      (span : a.span s s') : Expr.Aligned a (.lambda parameters e s) (.lambda parameters e' s')
  | blockLambda (parameters : List String) {r r' s s' : Span} (body : a.span r r')
      (span : a.span s s') :
      Expr.Aligned a (.blockLambda parameters r s) (.blockLambda parameters r' s')
  | unary (op : UnaryOp) {e e' : Expr} {s s' : Span} (operand : Expr.Aligned a e e')
      (span : a.span s s') : Expr.Aligned a (.unary op e s) (.unary op e' s')
  | binary (op : BinaryOp) {e e' f f' : Expr} {s s' : Span} (left : Expr.Aligned a e e')
      (right : Expr.Aligned a f f') (span : a.span s s') :
      Expr.Aligned a (.binary op e f s) (.binary op e' f' s')
  | assign (op : AssignOp) {e e' f f' : Expr} {s s' : Span} (target : Expr.Aligned a e e')
      (value : Expr.Aligned a f f') (span : a.span s s') :
      Expr.Aligned a (.assign op e f s) (.assign op e' f' s')
  | conditional {d d' e e' f f' : Expr} {s s' : Span} (condition : Expr.Aligned a d d')
      (whenTrue : Expr.Aligned a e e') (whenFalse : Expr.Aligned a f f') (span : a.span s s') :
      Expr.Aligned a (.conditional d e f s) (.conditional d' e' f' s')
  | cast (type : String) {e e' : Expr} {s s' : Span} (operand : Expr.Aligned a e e')
      (span : a.span s s') : Expr.Aligned a (.cast type e s) (.cast type e' s')
  | typeOperator (keyword : String) {s s' : Span} (span : a.span s s') :
      Expr.Aligned a (.typeOperator keyword s) (.typeOperator keyword s')
  | paren {e e' : Expr} {s s' : Span} (inner : Expr.Aligned a e e') (span : a.span s s') :
      Expr.Aligned a (.paren e s) (.paren e' s')
  | typeName (type : String) {s s' : Span} (span : a.span s s') :
      Expr.Aligned a (.typeName type s) (.typeName type s')
  | unparsed {s s' : Span} (span : a.span s s') : Expr.Aligned a (.unparsed s) (.unparsed s')

/-- Arguments that correspond. -/
inductive Argument.Aligned (a : Alignment) : Argument → Argument → Prop where
  | mk (name : Option String) {e e' : Expr} {s s' : Span} (value : Expr.Aligned a e e')
      (span : a.span s s') : Argument.Aligned a (.mk name e s) (.mk name e' s')

/-- Field values that correspond. -/
inductive FieldValue.Aligned (a : Alignment) : FieldValue → FieldValue → Prop where
  | mk (name : String) {e e' : Expr} {s s' : Span} (value : Expr.Aligned a e e')
      (span : a.span s s') : FieldValue.Aligned a (.mk name e s) (.mk name e' s')

/-- Initializers that correspond. -/
inductive Initializer.Aligned (a : Alignment) : Initializer → Initializer → Prop where
  | absent : Initializer.Aligned a .absent .absent
  | fields {fs fs' : List FieldValue} (h : List.Forall₂ (FieldValue.Aligned a) fs fs') :
      Initializer.Aligned a (.fields fs) (.fields fs')
  | elements {es es' : List Expr} (h : List.Forall₂ (Expr.Aligned a) es es') :
      Initializer.Aligned a (.elements es) (.elements es')

end

variable {a : Alignment}

theorem Expr.Aligned.span_aligned {e e' : Expr} (h : e.Aligned a e') : a.span e.span e'.span := by
  cases h with
  | literal h =>
    obtain ⟨t, t', ht, hinside, hs, hs'⟩ := h.token
    show a.span _ _
    rw [Expr.span, Expr.span, hs, hs']
    exact a.span_of ht hinside
  | _ => assumption

/-! ## Shapes of aligned expressions -/

namespace Expr.Aligned

variable {e e' : Expr}

theorem shape_eq (h : e.Aligned a e') : e.shape = e'.shape := by
  cases h <;> rfl

theorem methodName_eq (h : e.Aligned a e') : e.methodName? = e'.methodName? := by
  cases h <;> rfl

theorem receiver_aligned (h : e.Aligned a e') :
    Option.Rel (Expr.Aligned a) e.receiver? e'.receiver? := by
  cases h with
  | member _ _ target _ => exact .some target
  | _ => exact .none

end Expr.Aligned

theorem Expr.path_eq {e e' : Expr} (h : e.Aligned a e') : e.path? = e'.path? := by
  cases h with
  | member conditional _ target _ =>
    cases conditional with
    | true => rfl
    | false => rw [Expr.path?, Expr.path?, Expr.path_eq target]
  | _ => rfl
termination_by sizeOf e

/-- The names in a path are words of the text. -/
theorem Expr.path_words {e e' : Expr} (h : e.Aligned a e') {path : List String}
    (hpath : e.path? = some path) : ∀ n ∈ path, a.Word n := by
  cases h with
  | name word _ =>
    obtain rfl := Option.some.inj hpath
    exact List.forall_mem_singleton.mpr word
  | member conditional word target _ =>
    cases conditional with
    | true => cases hpath
    | false =>
      obtain ⟨front, hfront, rfl⟩ := Option.map_eq_some_iff.mp hpath
      rw [List.forall_mem_append]
      exact ⟨Expr.path_words target hfront, List.forall_mem_singleton.mpr word⟩
  | _ => cases hpath
termination_by sizeOf e

/-! ## Statements -/

/-- A text that is the text of a name in both files. -/
def Alignment.Named (a : Alignment) (name : String) : Prop :=
  ∃ t t', a.token t t' ∧ t.isName = true ∧ t.text = name

/-- Places that reach from an opening brace to a closing one. -/
def Alignment.Braced (a : Alignment) (s s' : Span) : Prop :=
  ∃ t t' u u', a.token t t' ∧ a.token u u' ∧ t.isSymbol .openBrace = true ∧
    u.isSymbol .closeBrace = true ∧ s = t.span.cover u.span ∧ s' = t'.span.cover u'.span

theorem Alignment.Braced.span {s s' : Span} (h : a.Braced s s') : a.span s s' := by
  obtain ⟨t, t', u, u', ht, hu, -, hclose, rfl, rfl⟩ := h
  exact a.cover (a.place_of ht) (a.span_of_symbol ⟨hu, hclose⟩)

/-- Statements that correspond. -/
inductive Stmt.Aligned (a : Alignment) : Stmt → Stmt → Prop where
  | block {ss ss' : List Stmt} {s s' : Span} (statements : List.Forall₂ (Stmt.Aligned a) ss ss')
      (span : a.span s s') : Stmt.Aligned a (.block ss s) (.block ss' s')
  | expression {e e' : Expr} {s s' : Span} (expr : e.Aligned a e') (span : a.span s s') :
      Stmt.Aligned a (.expression e s) (.expression e' s')
  | conditional {e e' : Expr} {b b' : Stmt} {o o' : Option Stmt} {s s' : Span}
      (condition : e.Aligned a e') (thenBranch : Stmt.Aligned a b b')
      (elseBranch : Option.Rel (Stmt.Aligned a) o o') (span : a.span s s') :
      Stmt.Aligned a (.conditional e b o s) (.conditional e' b' o' s')
  | declaration (type : String) {name : String} {i i' : Option Expr} {s s' : Span}
      (named : a.Named name) (initializer : Option.Rel (Expr.Aligned a) i i')
      (span : a.span s s') :
      Stmt.Aligned a (.declaration type name i s) (.declaration type name i' s')
  | other (which : OtherStatement) {s s' : Span} (span : a.span s s') :
      Stmt.Aligned a (.other which s) (.other which s')
  | malformed (fault : SyntaxFault) {s s' : Span} (span : a.span s s') :
      Stmt.Aligned a (.malformed fault s) (.malformed fault s')

theorem Stmt.Aligned.span_aligned {s s' : Stmt} (h : s.Aligned a s') : a.span s.span s'.span := by
  cases h <;> assumption

theorem Stmt.Aligned.kind_eq {s s' : Stmt} (h : s.Aligned a s') : s.kind = s'.kind := by
  cases h <;> rfl

/-! ## Declarations -/

/-- Method bodies that correspond. -/
inductive MethodBody.Aligned (a : Alignment) : MethodBody → MethodBody → Prop where
  | block {ss ss' : List Stmt} {s s' : Span} (statements : List.Forall₂ (Stmt.Aligned a) ss ss')
      (braces : a.Braced s s') : MethodBody.Aligned a (.block ss s) (.block ss' s')
  | expression {e e' : Expr} (expr : e.Aligned a e') :
      MethodBody.Aligned a (.expression e) (.expression e')

/-- Parameters that correspond. -/
structure Parameter.Aligned (a : Alignment) (p p' : Parameter) : Prop where
  type : p.type = p'.type
  name : p.name = p'.name
  span : a.span p.span p'.span

/-- Methods that correspond. -/
structure MethodDecl.Aligned (a : Alignment) (m m' : MethodDecl) : Prop where
  name : m.name = m'.name
  returnType : m.returnType = m'.returnType
  parameters : List.Forall₂ (Parameter.Aligned a) m.parameters m'.parameters
  body : Option.Rel (MethodBody.Aligned a) m.body m'.body
  modifiers : m.modifiers = m'.modifiers
  nameSpan : a.span m.nameSpan m'.nameSpan
  span : a.span m.span m'.span

/-- Fields that correspond. -/
structure FieldDecl.Aligned (a : Alignment) (f f' : FieldDecl) : Prop where
  name : f.name = f'.name
  type : f.type = f'.type
  isConst : f.isConst = f'.isConst
  initializer : Option.Rel (Expr.Aligned a) f.initializer f'.initializer
  span : a.span f.span f'.span

/-- Members that correspond. -/
inductive Member.Aligned (a : Alignment) : Member → Member → Prop where
  | field {f f' : FieldDecl} (h : f.Aligned a f') : Member.Aligned a (.field f) (.field f')
  | method {m m' : MethodDecl} (h : m.Aligned a m') : Member.Aligned a (.method m) (.method m')
  | other {s s' : Span} (span : a.span s s') : Member.Aligned a (.other s) (.other s')

/-- Attributes that correspond. -/
structure AttributeUse.Aligned (a : Alignment) (u u' : AttributeUse) : Prop where
  name : u.name = u'.name
  arguments : List.Forall₂ (Argument.Aligned a) u.arguments u'.arguments
  span : a.span u.span u'.span

/-- Classes that correspond. -/
structure ClassDecl.Aligned (a : Alignment) (d d' : ClassDecl) : Prop where
  name : d.name = d'.name
  named : a.Named d.name
  attributes : List.Forall₂ (AttributeUse.Aligned a) d.attributes d'.attributes
  modifiers : d.modifiers = d'.modifiers
  baseTypes : d.baseTypes = d'.baseTypes
  members : List.Forall₂ (Member.Aligned a) d.members d'.members
  nameSpan : a.span d.nameSpan d'.nameSpan
  span : a.span d.span d'.span

/-- Contents of files that correspond. -/
structure Contents.Aligned (a : Alignment) (x x' : Contents) : Prop where
  namespaceName : x.namespaceName = x'.namespaceName
  classes : List.Forall₂ (ClassDecl.Aligned a) x.classes x'.classes

theorem Contents.Aligned.append {x x' y y' : Contents} (hx : x.Aligned a x')
    (hy : y.Aligned a y') : (x.append y).Aligned a (x'.append y') := by
  refine ⟨?_, List.rel_append hx.classes hy.classes⟩
  rw [Contents.append, Contents.append, hx.namespaceName, hy.namespaceName]

end GatewayPolicy
