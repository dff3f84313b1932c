import GatewayPolicy.Authoring.Expr
import GatewayPolicy.Authoring.SyntaxError
import GatewayPolicy.Source.File

/-! # Statements and declarations

  The tree of a source file: its classes, their fields and methods, and the
  statements of method bodies. Statements that never become part of a
  document are kept by their kind and span.

  - `Stmt` is a statement; `Stmt.kind` is what reports call it.
  - `ClassDecl` is a class with its members; nested classes stand beside it in
    the list of the file.
-/

namespace GatewayPolicy

/-! ## Statements -/

/-- Statements that are recognised but never become part of a document. -/
inductive OtherStatement where
  | empty | returns | throws | forLoop | forEachLoop | whileLoop | doLoop | switches | tries
  | breaks | continues | jumps | locks | uses | yields | localFunction
  deriving DecidableEq, Repr, Inhabited

/-- Kinds of statements. -/
inductive StatementKind where
  | block
  | expression
  | conditional
  | declaration
  | other (which : OtherStatement)
  | malformed
  deriving DecidableEq, Repr, Inhabited

/-- The word for a kind of statement, as reports use it. -/
def StatementKind.text : StatementKind → String
  | block => "Block"
  | expression => "ExpressionStatement"
  | conditional => "IfStatement"
  | declaration => "LocalDeclarationStatement"
  | other .empty => "EmptyStatement"
  | other .returns => "ReturnStatement"
  | other .throws => "ThrowStatement"
  | other .forLoop => "ForStatement"
  | other .forEachLoop => "ForEachStatement"
  | other .whileLoop => "WhileStatement"
  | other .doLoop => "DoStatement"
  | other .switches => "SwitchStatement"
  | other .tries => "TryStatement"
  | other .breaks => "BreakStatement"
  | other .continues => "ContinueStatement"
  | other .jumps => "GotoStatement"
  | other .locks => "LockStatement"
  | other .uses => "UsingStatement"
  | other .yields => "YieldStatement"
  | other .localFunction => "LocalFunctionStatement"
  | malformed => "MalformedStatement"

/-- A statement. -/
inductive Stmt where
  | block (statements : List Stmt) (span : Span)
  | expression (expr : Expr) (span : Span)
  /-- `if (condition) thenBranch else elseBranch`. -/
  | conditional (condition : Expr) (thenBranch : Stmt) (elseBranch : Option Stmt) (span : Span)
  /-- `T name = initializer;`. -/
  | declaration (type name : String) (initializer : Option Expr) (span : Span)
  | other (which : OtherStatement) (span : Span)
  /-- Tokens that form no statement. -/
  | malformed (fault : SyntaxFault) (span : Span)
  deriving Inhabited

namespace Stmt

/-- What a statement is. -/
def kind : Stmt → StatementKind
  | block .. => .block
  | expression .. => .expression
  | conditional .. => .conditional
  | declaration .. => .declaration
  | other which _ => .other which
  | malformed .. => .malformed

/-- The place of a statement. -/
def span : Stmt → Span
  | block _ s | expression _ s | conditional _ _ _ s | declaration _ _ _ s => s
  | other _ s | malformed _ s => s

end Stmt

/-! ## Members -/

/-- The body of a method. -/
inductive MethodBody where
  /-- `{ ... }`. -/
  | block (statements : List Stmt) (span : Span)
  /-- `=> expr;`. -/
  | expression (expr : Expr)
  deriving Inhabited

/-- The place of a body, without the arrow. -/
def MethodBody.span : MethodBody → Span
  | block _ s => s
  | expression e => e.span

/-- A parameter of a method. -/
structure Parameter where
  type : String
  name : String
  span : Span
  deriving DecidableEq, Repr, Inhabited

/-- A method. -/
structure MethodDecl where
  name : String
  returnType : String
  parameters : List Parameter
  /-- Left out for abstract methods. -/
  body : Option MethodBody
  modifiers : List String
  nameSpan : Span
  span : Span
  deriving Inhabited

/-- A field with one name. -/
structure FieldDecl where
  name : String
  type : String
  isConst : Bool
  initializer : Option Expr
  span : Span
  deriving Inhabited

/-- A member of a class. -/
inductive Member where
  | field (field : FieldDecl)
  | method (method : MethodDecl)
  /-- A constructor, property, event or anything else that is not read. -/
  | other (span : Span)
  deriving Inhabited

/-! ## Classes -/

/-- The part of a text after its last dot. -/
def lastSegment (s : String) : String :=
  String.ofList (s.toList.reverse.takeWhile (· ≠ '.')).reverse

/-- An attribute of a declaration. -/
structure AttributeUse where
  /-- The name as written. -/
  name : String
  arguments : List Argument
  span : Span
  deriving Inhabited

/-- The text without an ending, if it has that ending. -/
def dropEnding (ending s : String) : String :=
  if ending.toList.reverse.isPrefixOf s.toList.reverse then
    String.ofList (s.toList.take (s.length - ending.length))
  else s

/-- The last name of an attribute, without the ending `Attribute`. -/
def AttributeUse.simpleName (a : AttributeUse) : String :=
  dropEnding "Attribute" (lastSegment a.name)

/-- A class, struct or record. -/
structure ClassDecl where
  name : String
  attributes : List AttributeUse
  modifiers : List String
  baseTypes : List String
  members : List Member
  nameSpan : Span
  span : Span
  deriving Inhabited

namespace ClassDecl

/-- The methods of a class in order. -/
def methods (c : ClassDecl) : List MethodDecl :=
  c.members.filterMap fun
    | .method m => some m
    | .field _ => none
    | .other _ => none

/-- The fields of a class in order. -/
def fields (c : ClassDecl) : List FieldDecl :=
  c.members.filterMap fun
    | .field f => some f
    | .method _ => none
    | .other _ => none

end ClassDecl

/-- What a file declares. -/
structure Contents where
  /-- The first namespace that is named. -/
  namespaceName : Option String := none
  /-- Every class, each before the classes nested in it. -/
  classes : List ClassDecl := []
  deriving Inhabited

/-- The contents of two stretches of a file, one after the other. -/
def Contents.append (a b : Contents) : Contents :=
  { namespaceName := a.namespaceName <|> b.namespaceName, classes := a.classes ++ b.classes }

/-- A file that has been read. -/
structure SourceTree extends Contents where
  file : SourceFile
  deriving Inhabited

end GatewayPolicy
