import GatewayPolicy.Authoring.Declaration

/-! # The classes of a compilation

  A compilation reads several files. A class may be declared in parts, in one
  file or in many, and all parts of a name make up the class.

  - `Model.parts` lists every part in file order, then declaration order.
  - `Model.partsOf` lists the parts of one class.
-/

namespace GatewayPolicy

/-- A class declaration and the file it stands in. -/
structure Part where
  file : SourceFile
  decl : ClassDecl
  deriving Inhabited

/-- All files of a compilation. -/
structure Model where
  trees : List SourceTree
  deriving Inhabited

/-- The parts that a file declares. -/
def SourceTree.parts (t : SourceTree) : List Part :=
  t.classes.map fun decl => { file := t.file, decl }

namespace Model

/-- Every part, in order. -/
def parts (m : Model) : List Part := m.trees.flatMap SourceTree.parts

/-- The parts of a class, in order. -/
def partsOf (m : Model) (className : String) : List Part :=
  m.parts.filter (·.decl.name == className)

/-- The first field of a name over the parts of a class. -/
def field? (m : Model) (className field : String) : Option FieldDecl :=
  (m.partsOf className).findSome? fun p => p.decl.fields.find? (·.name == field)

/-- How many fields all classes have together. -/
def fieldCount (m : Model) : Nat := (m.parts.flatMap (·.decl.fields)).length

/-- The statements of the first method of a name that has a block body. -/
def statements? (m : Model) (className method : String) : Option (List Stmt) :=
  (m.partsOf className).findSome? fun p => p.decl.methods.findSome? fun d =>
    if d.name == method then
      match d.body with
      | some (.block statements _) => some statements
      | _ => none
    else none

end Model

end GatewayPolicy
