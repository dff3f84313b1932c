import GatewayPolicy.Authoring.Scan
import GatewayPolicy.Authoring.Statement

/-! # Reading a file

  A file is a sequence of type declarations, which may stand in namespaces.
  Classes are read member by member. Everything else is skipped.

  - `Parse.classOf` and `Parse.memberOf` read classes, which may nest.
  - `SourceTree.parse` reads a file, with the usual limit on nesting.
-/

namespace GatewayPolicy

namespace Parse

/-! ## Names and attributes -/

/-- The further names of a qualified name, with what separates them. -/
def qualifiedTailWithin : Nat → Parse String
  | 0 => pure ""
  | steps + 1 => do
    if ← atAny? [.dot, .doubleColon] then
      let separator ← advance
      let name ← expectName
      return separator.text ++ name.text ++ (← qualifiedTailWithin steps)
    else return ""

/-- A name that may be qualified. -/
def qualifiedName : Parse String := do
  let first ← expectName
  return first.text ++ (← bounded qualifiedTailWithin)

/-- One attribute. -/
def attributeUse (g : Grammar) : Parse AttributeUse := do
  let start ← here
  let name ← qualifiedName
  let arguments ← (do
    if ← eat .openParen then
      let arguments ← (do
        if ← at? .closeParen then return [] else commaList (argument g true))
      let _ ← expect .closeParen
      return arguments
    else return [])
  return { name, arguments, span := start.cover (← last) }

/-- The attributes of one bracket; a comma may stand at the end. -/
def attributesWithin (g : Grammar) : Nat → Parse (List AttributeUse)
  | 0 => do return [← attributeUse g]
  | steps + 1 => do
    let first ← attributeUse g
    if ← eat .comma then
      if ← at? .closeBracket then return [first]
      else return first :: (← attributesWithin g steps)
    else return [first]

/-- The attributes of all brackets in front of a declaration. A word and a
    colon at the start of a bracket say what it applies to, and are dropped. -/
def attributeListsWithin (g : Grammar) : Nat → Parse (List AttributeUse)
  | 0 => pure []
  | steps + 1 => do
    if ← eat .openBracket then
      if (← peek).isIdentifier && (← peekAt 1).isSymbol .colon then
        let _ ← advance
        let _ ← advance
      let attributes ← bounded (attributesWithin g)
      let _ ← expect .closeBracket
      return attributes ++ (← attributeListsWithin g steps)
    else return []

/-- The attributes in front of a declaration. -/
def attributeLists (g : Grammar) : Parse (List AttributeUse) :=
  bounded (attributeListsWithin g)

/-- Words in front of a declaration that say how it may be used. -/
def modifierWords : List String :=
  ["public", "private", "protected", "internal", "static", "sealed", "abstract", "partial",
   "readonly", "unsafe", "new", "file", "virtual", "override", "extern", "async", "const",
   "volatile", "required"]

/-- The modifiers in front of a declaration. -/
def modifiers : Parse (List String) := do
  return (← takeWhile (·.isAnyWord modifierWords)).map (·.text)

/-! ## Methods -/

/-- A parameter; its default value is skipped. -/
def parameter (g : Grammar) : Parse Parameter := do
  let start ← here
  let _ ← attributeLists g
  let _ ← takeWhile (·.isAnyWord ["this", "ref", "out", "in", "params", "scoped"])
  let type ← typeName
  let name ← expectName
  if ← eat .assign then
    skipTo Token.isOpening (·.isAnySymbol [.comma, .closeParen])
  return { type, name := name.text, span := start.cover (← last) }

/-- The parameters of a method, in parentheses. -/
def parameters (g : Grammar) : Parse (List Parameter) := do
  let _ ← expect .openParen
  if ← eat .closeParen then return []
  let ps ← commaList (parameter g)
  let _ ← expect .closeParen
  return ps

/-- An expression up to a semicolon, which is not taken. Code outside the
    grammar is kept by its span. -/
def expressionBody (expression : Parse Expr) : Parse Expr := do
  let start ← cursor
  let outcome ← observe expression
  let whole ← at? .semicolon
  let tooDeep ← exceeded
  let skipped : Parse Expr := do
    rewind start
    skipUntilSemicolon
    return .unparsed (start.peek.span.cover (← last))
  match outcome with
  | .ok e => if whole then return e else skipped
  | .error e => if tooDeep then throw e else skipped

/-- The rest of a method, from its parameters on. -/
def methodOf (g : CodeGrammar) (start : Span) (returnType : String) (name : Token)
    (mods : List String) : Parse MethodDecl := do
  let ps ← parameters g.toGrammar
  skipConstraints
  let body ← (do
    if ← at? .openBrace then
      let (statements, span) ← block g.statement
      return some (.block statements span)
    else if ← eat .arrow then
      let e ← expressionBody g.assignment
      let _ ← expect .semicolon
      return some (.expression e)
    else
      let _ ← expect .semicolon
      return none)
  return { name := name.text, returnType, parameters := ps, body, modifiers := mods,
           nameSpan := name.span, span := start.cover (← last) }

/-! ## Fields -/

/-- The value of a field, if it can be read up to a comma or semicolon; else it
    is skipped. -/
def fieldInitializer (expression : Parse Expr) : Parse (Option Expr) := do
  let start ← cursor
  let outcome ← observe expression
  let whole ← atAny? [.comma, .semicolon]
  let skipped : Parse (Option Expr) := do
    rewind start
    skipTo Token.isOpening (·.isAnySymbol [.comma, .semicolon, .closeBrace])
    if ← atAny? [.comma, .semicolon] then return none
    else expected (.symbol .semicolon)
  match outcome with
  | .ok e => if whole then return some e else skipped
  | .error _ => skipped

/-- The fields of one declaration, the first of them named `name`. -/
def fieldsWithin (expression : Parse Expr) (type : String) (isConst : Bool) :
    Nat → Token → Parse (List Member)
  | 0, _ => expected (.symbol .semicolon)
  | steps + 1, name => do
    let initializer ← (do
      if ← eat .assign then fieldInitializer expression else return none)
    let field : FieldDecl :=
      { name := name.text, type, isConst, initializer, span := name.span.cover (← last) }
    if ← eat .comma then
      let next ← expectName
      return .field field :: (← fieldsWithin expression type isConst steps next)
    else return [.field field]

/-- The fields of one declaration and its semicolon. -/
def fields (expression : Parse Expr) (type : String) (isConst : Bool) (first : Token) :
    Parse (List Member) := do
  let members ← bounded fun steps => fieldsWithin expression type isConst (steps + 1) first
  let _ ← expect .semicolon
  return members

/-! ## Classes -/

/-- What a class body holds: its members, and the classes nested in it. -/
structure ClassParts where
  members : List Member := []
  nested : List ClassDecl := []

/-- The parts of two stretches of a class body, one after the other. -/
def ClassParts.append (a b : ClassParts) : ClassParts :=
  { members := a.members ++ b.members, nested := a.nested ++ b.nested }

/-- Reads a class whose attributes and modifiers have been read. -/
abbrev ClassParse := Span → List AttributeUse → List String → Parse (List ClassDecl)

/-- A name that may stand for an interface as well: the last name counts. -/
def memberNameWithin : Nat → Token → Parse Token
  | 0, name => pure name
  | steps + 1, name => do
    if ← eat .dot then memberNameWithin steps (← expectName) else return name

/-- A member that is skipped by `skip`. -/
def skippedMember (start : Span) (skip : Parse Unit) : Parse ClassParts := do
  skip
  return { members := [.other (start.cover (← last))] }

/-- A field, method or property, from its type on. -/
def typedMember (g : CodeGrammar) (start : Span) (mods : List String) : Parse ClassParts := do
  let type ← typeName
  if (← peek).isAnyWord ["operator", "this"] || type = "implicit" || type = "explicit" then
    skippedMember start skipMember
  else
    let first ← expectName
    let name ← bounded (memberNameWithin · first)
    if ← at? .less then skipAngles
    if ← at? .openParen then
      return { members := [.method (← methodOf g start type name mods)] }
    else if ← atAny? [.openBrace, .arrow] then skippedMember start skipMember
    else return { members := ← fields g.assignment type (mods.contains "const") name }

/-- A member of the class `className`; nested classes are read by `nested`. -/
def memberOfClass (g : CodeGrammar) (nested : ClassParse) (className : String) :
    Parse ClassParts := do
  let start ← here
  let attributes ← attributeLists g.toGrammar
  let mods ← modifiers
  let t ← peek
  let next ← peekAt 1
  if t.isAnyWord ["class", "struct"] || (t.isWord "record" && next.isIdentifier) then
    return { nested := ← nested start attributes mods }
  else if t.isAnyWord ["interface", "enum"] then skippedMember start skipTypeBody
  else if t.isAnyWord ["delegate", "event"] || t.isSymbol .tilde then
    skippedMember start skipMember
  else if t.isWord className && next.isSymbol .openParen then
    let _ ← advance
    skippedMember start skipMember
  else typedMember g start mods

/-- The members of a class up to its closing brace, which is taken. -/
def membersWithin (member : Parse ClassParts) : Nat → Parse ClassParts
  | 0 => do
    let _ ← expect .closeBrace
    return {}
  | steps + 1 => do
    if ← eat .closeBrace then return {}
    else if (← peek).isEof then expected (.symbol .closeBrace)
    else
      let first ← member
      return first.append (← membersWithin member steps)

/-- A base type; arguments behind it are skipped. -/
def baseType : Parse String := do
  let type ← typeName
  if ← at? .openParen then
    let _ ← skipGroup
  return type

/-- A class, from its keyword on; its members are read by `member`. -/
def classOf (member : String → Parse ClassParts) (start : Span)
    (attributes : List AttributeUse) (mods : List String) : Parse (List ClassDecl) := do
  let keyword ← advance
  if keyword.isWord "record" then
    unless ← eatWord "class" do
      let _ ← eatWord "struct"
  let name ← expectName
  if ← at? .less then skipAngles
  if ← at? .openParen then
    let _ ← skipGroup
  let baseTypes ← (do if ← eat .colon then commaList baseType else return [])
  skipConstraints
  let parts ← (do
    if ← eat .semicolon then return {}
    else
      let _ ← expect .openBrace
      let parts ← bounded (membersWithin (member name.text))
      let _ ← eat .semicolon
      return parts)
  return { name := name.text, attributes, modifiers := mods, baseTypes, members := parts.members,
           nameSpan := name.span, span := start.cover (← last) } :: parts.nested

/-- A class that nests at most `depth` classes inside each other. -/
def classWithin (g : CodeGrammar) : Nat → ClassParse
  | 0, _, _, _ => expected .typeDeclaration
  | depth + 1, start, attributes, mods =>
    classOf (memberOfClass g fun s a m c n => classWithin g depth s a m c n) start attributes mods

/-! ## Files -/

/-- A type declaration; only classes are read. -/
def typeDeclaration (g : CodeGrammar) : Parse (List ClassDecl) := do
  let start ← here
  let attributes ← attributeLists g.toGrammar
  let mods ← modifiers
  let t ← peek
  if t.isAnyWord ["class", "struct", "record"] then
    bounded (classWithin g · start attributes mods)
  else if t.isAnyWord ["interface", "enum"] then
    skipTypeBody
    return []
  else if t.isWord "delegate" then
    skipPastSemicolon
    return []
  else expected .typeDeclaration

/-- Whether a directive that names other code begins here. -/
def startsImport (t next : Token) : Bool :=
  t.isAnyWord ["using", "extern"] || (t.isWord "global" && next.isWord "using")

/-- Declarations up to the end of the file, or up to a brace when `braced`. -/
def contentsWithin (g : CodeGrammar) : Nat → Bool → Parse Contents
  | 0, braced => do
    if braced then
      let _ ← expect .closeBrace
    return {}
  | steps + 1, braced => do
    let t ← peek
    if t.isEof then
      if braced then expected (.symbol .closeBrace) else return {}
    else if braced && t.isSymbol .closeBrace then
      let _ ← advance
      return {}
    else if startsImport t (← peekAt 1) then
      skipPastSemicolon
      contentsWithin g steps braced
    else if ← eatWord "namespace" then
      let named : Contents := { namespaceName := some (← qualifiedName) }
      if ← eat .semicolon then return named.append (← contentsWithin g steps braced)
      else
        let _ ← expect .openBrace
        let inside ← contentsWithin g steps true
        let behind ← contentsWithin g steps braced
        return (named.append inside).append behind
    else
      let classes ← typeDeclaration g
      let behind ← contentsWithin g steps braced
      return ({ classes } : Contents).append behind

/-- The declarations of a file. -/
def contents (g : CodeGrammar) : Parse Contents := bounded (contentsWithin g · false)

end Parse

/-! ## Errors of files -/

/-- Why a file cannot be read. -/
inductive ParseFault where
  | lexical (fault : LexicalFault)
  | structural (fault : SyntaxFault)
  deriving DecidableEq, Repr, Inhabited

/-- The wording of a fault. -/
def ParseFault.message : ParseFault → String
  | lexical fault => fault.message
  | structural fault => fault.message

/-- A file that cannot be read, and where. -/
structure ParseError where
  file : String
  fault : ParseFault
  span : Span
  deriving DecidableEq, Repr, Inhabited

/-- The error in words. -/
def ParseError.text (e : ParseError) : String :=
  s!"Syntax error in {e.file} at line {e.span.line}, column {e.span.column}: {e.fault.message}"

namespace SourceTree

/-- Reads a file by some productions of code, with a limit that refusals name. -/
def parseBy (g : CodeGrammar) (limit : Nat) (file : SourceFile) : Except ParseError SourceTree :=
  match scan file.text with
  | .error e => .error { file := file.name, fault := .lexical e.fault, span := e.span }
  | .ok (tokens, stop) =>
    let fail (e : SyntaxError) : Except ParseError SourceTree :=
      .error { file := file.name, fault := .structural e.fault, span := e.span }
    match Parse.contents g (.start tokens (stop.span [])) { limit } with
    | .fail e _ => fail e
    | .ok contents _ nesting =>
      match nesting.exceeded with
      | some span => fail { fault := .tooDeep limit, span }
      | none => .ok { contents with file }

/-- Reads a file in which code is nested at most `limit` levels deep. -/
def parseWithin (limit : Nat) (file : SourceFile) : Except ParseError SourceTree :=
  parseBy (.within limit) limit file

/-- How deeply code may be nested. -/
def nestingLimit : Nat := 128

/-- Reads a file. -/
def parse (file : SourceFile) : Except ParseError SourceTree := parseWithin nestingLimit file

end SourceTree

end GatewayPolicy
