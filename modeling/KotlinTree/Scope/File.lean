import KotlinTree.Syntax.Forest
import KotlinTree.Text.Capital
import KotlinTree.Text.Letter
import KotlinTree.Text.Parts
import KotlinTree.Types.Builtins

/-!
Dotted names in a tree, and the classes that they can mean; what the head of a file makes visible: its
package, its imports, and what is imported everywhere.
-/

namespace KotlinTree

namespace Forest

/-- The names of a plain chain from left to right, if the tree is one. -/
def chainSegments? (f : Forest) (id : NodeId) : Option (List String) :=
  if f.kind? (some id) = some (.token .identifier) then some [f.nameText (some id)]
  else match f.data (some id) with
    | .access access =>
      -- A name after a question mark makes the chain an expression.
      if access.isNullSafe then none
      else if _ : access.expression < id then
        (f.chainSegments? access.expression).map (· ++ [f.nameText access.name])
      else none
    | _ => none
termination_by id

end Forest

/-- Names with points between them. -/
def dotted (segments : List String) : String := ".".intercalate segments

/-- The binary name of a class whose first `n` names are its package and outermost class. -/
def binaryName (segments : List String) (n : Nat) : String :=
  (segments.drop n).foldl (fun name nested => name ++ "$" ++ nested) (dotted (segments.take n))

/-- The class that a dotted path names. The longest package is tried first. -/
def qualifiedToClass? (path : String) (isClass : String → Bool) : Option String :=
  let segments := Text.parts (· = '.') path
  let candidates := (List.range segments.length).reverse.map fun n => binaryName segments (n + 1)
  candidates.find? isClass

/-- A name in a package; the package may have no name. -/
def inPackage (package name : String) : String :=
  if package = "" then name else package ++ "." ++ name

/-- The package and the imports of a file. -/
structure FileScope where
  package : String := ""
  /-- The paths of imported names by local name; a later import of a name replaces an earlier. -/
  explicitImports : List (String × String) := []
  /-- Packages and classes all of whose names are imported. -/
  starImports : List String := []
  /-- Packages that are imported everywhere. -/
  defaultImports : List String := Builtins.defaultImports
  deriving DecidableEq, Repr, Inhabited

/-- Where a type is written: the classes around it, outermost first, and type parameters. -/
structure TypeContext where
  enclosing : List String := []
  typeParameters : List String := []
  deriving DecidableEq, Repr, Inhabited

namespace FileScope

/-- Names an import. -/
def addImport (scope : FileScope) (name path : String) : FileScope :=
  { scope with explicitImports :=
      (scope.explicitImports.filter fun entry => entry.1 ≠ name) ++ [(name, path)] }

/-- The name that an import is used by: its local name, or the last of its path. -/
def importName (f : Forest) (directive : ImportDirective) (segments : List String) : String :=
  match directive.localName with
  | some name => f.nameText (some name)
  | none => segments.getLast?.getD ""

/-- Adds an import of a file. A path that is no plain chain is passed over. -/
def addDirective (f : Forest) (scope : FileScope) (id : NodeId) : FileScope :=
  match f.data (some id) with
  | .importDirective directive =>
    match directive.path.bind f.chainSegments? with
    | some segments =>
      if directive.isStar then { scope with starImports := scope.starImports ++ [dotted segments] }
      else scope.addImport (importName f directive segments) (dotted segments)
    | none => scope
  | _ => scope

/-- The package that a file declares. -/
def packageOf (f : Forest) (file : SourceFile) : String :=
  match f.data file.package with
  | .package name => ((name.bind f.chainSegments?).map dotted).getD ""
  | _ => ""

/-- The scope of a file. -/
def ofFile (f : Forest) (root : NodeId) : FileScope :=
  match f.data (some root) with
  | .sourceFile file =>
    file.imports.toList.foldl (addDirective f) { package := packageOf f file }
  | _ => {}

/-- Adds packages that are imported everywhere. -/
def addDefaultImports (scope : FileScope) (packages : List String) : FileScope :=
  let add (all : List String) (package : String) : List String :=
    -- The first place counts, so what is there already is not moved.
    if all.contains package then all else all ++ [package]
  { scope with defaultImports := packages.foldl add scope.defaultImports }

/-- A name that is declared at the top level of the file. -/
def qualify (scope : FileScope) (name : String) : String := inPackage scope.package name

/-- Packages that are searched for a bare name, in order. -/
def implicitPackages (scope : FileScope) : List String :=
  scope.package :: (scope.starImports ++ scope.defaultImports)

/-- The path that a name is imported from. -/
def importPath? (scope : FileScope) (name : String) : Option String :=
  scope.explicitImports.lookup name

/-- The class that a bare name means: nested in an enclosing class, the innermost first, then
imported by name, then in a package that is searched. -/
def resolveSimple? (scope : FileScope) (name : String) (enclosing : List String)
    (isClass : String → Bool) : Option String :=
  let nested := (enclosing.reverse.map fun outer => outer ++ "$" ++ name).find? isClass
  let imported := (scope.importPath? name).bind (qualifiedToClass? · isClass)
  let found := (scope.implicitPackages.map (inPackage · name)).find? isClass
  nested.or (imported.or found)

/-- A class nested in another one by a chain of names, each of which has to be a class. -/
def nestedClass? (isClass : String → Bool) : String → List String → Option String
  | name, [] => some name
  | name, segment :: rest =>
    let nested := name ++ "$" ++ segment
    if isClass nested then nestedClass? isClass nested rest else none

/-- The class that a dotted name means. A class in scope wins over a package of its name. -/
def resolveClass? (scope : FileScope) (segments enclosing : List String)
    (isClass : String → Bool) : Option String :=
  match segments with
  | [] => none
  | first :: rest =>
    match scope.resolveSimple? first enclosing isClass with
    | some outer => nestedClass? isClass outer rest
    -- A name alone that is not in scope is no path.
    | none => if rest.isEmpty then none else qualifiedToClass? (dotted segments) isClass

/-- The type of a class by its name. -/
def classType (name : String) (isNullable : Bool) : Ty :=
  if name = Ty.nothingName then .nothing isNullable
  else .named name (if isNullable then .nullable else .notNull)

/-- The type that is written at a node. A type parameter stands for any value; a name that means
no class is unknown. -/
def resolveType (scope : FileScope) (f : Forest) (id : Option NodeId) (context : TypeContext)
    (isClass : String → Bool) : Ty :=
  match f.data id with
  | .typeReference reference =>
    match reference.name.bind f.chainSegments? with
    | none => .unknown
    | some segments =>
      -- A type parameter hides every class of its name.
      if segments.length = 1 && context.typeParameters.any (some · = segments.head?) then
        .named Ty.anyName .nullable
      else ((scope.resolveClass? segments context.enclosing isClass).map
        (classType · reference.isNullable)).getD .unknown
  | _ => .unknown

end FileScope

/-- A text without a given end, as often as it has it. -/
def dropSuffixes (suffix : List Char) : Nat → List Char → List Char
  | 0, cs => cs
  | n + 1, cs =>
    match suffix.reverse.isPrefixOf? cs.reverse with
    | some front => dropSuffixes suffix n front.reverse
    | none => cs

/-- The name of a file without its directories and its extensions. -/
def fileStem (fileName : String) : List Char :=
  let base := (Text.afterLast (fun c => c = '/' || c = '\\') fileName).toList
  -- The last extension is that of a script, if there are both.
  let base := dropSuffixes ".kts".toList base.length base
  dropSuffixes ".kt".toList base.length base

/-- The class that the members of a file are compiled into. -/
def facadeName (package fileName : String) : String :=
  let legal := (fileStem fileName).map fun c => if Text.isAlphanumeric c || c = '_' then c else '_'
  let capitalised := match legal with
    | c :: cs => if c.toNat < 0x80 then c.toUpper :: cs else c :: cs
    | [] => []
  inPackage package (String.ofList capitalised ++ "Kt")

/-- The names that a list of type parameters declares. -/
def Forest.typeParameterNames (f : Forest) (list : Option NodeId) : List String :=
  (f.children list).toList.filterMap fun child =>
    match f.data (some child) with
    | .parameter parameter => some (f.nameText parameter.name)
    | _ => none

end KotlinTree
