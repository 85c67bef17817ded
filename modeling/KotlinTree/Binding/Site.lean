import KotlinTree.Scope.File

/-!
The class declarations of a file, each with the name it is bound to.
-/

namespace KotlinTree

/-- A class declaration with its binary name and the classes around it, outermost first. -/
structure ClassSite where
  node : NodeId
  name : String
  kind : ClassKind
  enclosing : List String
  typeParameters : List String
  supertypes : Array NodeId
  deriving Inhabited

namespace Forest

/-- The members in a class body. -/
def classMembers (f : Forest) (body : Option NodeId) : Array NodeId :=
  match f.data body with
  | .classBody members => members
  | _ => #[]

/-- The declarations of a file. -/
def topLevelDeclarations (f : Forest) (root : NodeId) : Array NodeId :=
  match f.data (some root) with
  | .sourceFile file => file.declarations
  | _ => #[]

/-- The name that a class declares. A companion has a name by default; an object without a name is
an expression. -/
def declaredName? (f : Forest) (declaration : ClassDeclaration) : Option String :=
  match declaration.name with
  | some name => some (f.nameText (some name))
  | none => if declaration.kind = .companionObject then some "Companion" else none

/-- The binary name of a class inside others, or at the top level of a file. -/
def binaryNameIn (scope : FileScope) (enclosing : List String) (name : String) : String :=
  match enclosing.getLast? with
  | some outer => outer ++ "$" ++ name
  | none => scope.qualify name

/-- The class that a node declares and those in its body, each before those inside it. -/
def classSites (f : Forest) (scope : FileScope) (enclosing : List String) (id : NodeId) :
    List ClassSite :=
  match f.data (some id) with
  | .classDeclaration declaration =>
    match f.declaredName? declaration with
    -- An object that is an expression is not bound.
    | none => []
    | some simple =>
      let name := binaryNameIn scope enclosing simple
      { node := id, name, kind := declaration.kind, enclosing
        typeParameters := f.typeParameterNames declaration.typeParameters
        supertypes := declaration.supertypes } ::
        -- Members have smaller numbers, so the recursion ends.
        (f.classMembers declaration.body).toList.flatMap fun member =>
          if _ : member < id then f.classSites scope (enclosing ++ [name]) member else []
  | _ => []
termination_by id

/-- All class declarations of a file that are bound. -/
def fileClassSites (f : Forest) (scope : FileScope) (root : NodeId) : List ClassSite :=
  (f.topLevelDeclarations root).toList.flatMap (f.classSites scope [])

end Forest

end KotlinTree
