import KotlinTree.Binding.Signature
import KotlinTree.Grammar.Unit

/-!
Binding: what files declare enters the environment, the classes of all files first, then their
supertypes, then their members.
-/

namespace KotlinTree

/-- A file with its scope and the names of its classes. -/
structure BoundUnit where
  fileName : String
  scope : FileScope
  /-- The class that the members of the file are compiled into. -/
  facade : String
  /-- The binary names of class declarations. -/
  classNames : List (NodeId × String)
  deriving DecidableEq, Repr, Inhabited

namespace Binding

/-- A parsed file on its way to be bound. -/
structure File where
  parsed : ParsedUnit
  scope : FileScope
  sites : List ClassSite

def File.ofParsed (defaultImports : List String) (u : ParsedUnit) : File :=
  let scope := (FileScope.ofFile u.forest u.root).addDefaultImports defaultImports
  { parsed := u, scope, sites := u.forest.fileClassSites scope u.root }

def File.facade (file : File) : String := facadeName file.scope.package file.parsed.fileName

def File.classNames (file : File) : List (NodeId × String) :=
  file.sites.map fun site => (site.node, site.name)

def File.boundUnit (file : File) : BoundUnit :=
  { fileName := file.parsed.fileName, scope := file.scope, facade := file.facade
    classNames := file.classNames }

/-- Declares a class; a companion is noted at the class around it. -/
def declareSite (package : String) (env : Environment) (site : ClassSite) :
    Except EnvironmentError Environment :=
  match env.addClass { name := site.name, package, kind := site.kind, origin := .source } with
  | (_, some e) => .error e
  | (env, none) =>
    match site.kind, site.enclosing.getLast? with
    -- Only the class right around a companion has it.
    | .companionObject, some outer =>
      .ok (env.modifyClass outer fun info => { info with companion := some site.name })
    | _, _ => .ok env

/-- Declares the package and the classes of a file. -/
def declareClasses (env : Environment) (file : File) : Except EnvironmentError Environment :=
  file.sites.foldlM (declareSite file.scope.package) (env.addPackage file.scope.package)

/-- A supertype of a class that is not the class itself, and whether it is constructed. -/
def supertypeOf? (env : Environment) (file : File) (site : ClassSite) (entry : NodeId) :
    Option (Bool × String) :=
  match file.parsed.forest.data (some entry) with
  | .supertypeEntry data =>
    let context : TypeContext :=
      { enclosing := site.enclosing ++ [site.name], typeParameters := site.typeParameters }
    let type := file.scope.resolveType file.parsed.forest (some data.typeRef) context env.hasClass
    match type.name? with
    -- A class is no supertype of itself; that it is written is passed over.
    | some name => if name = site.name then none else some (data.arguments.isSome, name)
    | none => none
  | _ => none

/-- The supertypes of a class, the one that is constructed before the others. -/
def supertypesOf (env : Environment) (file : File) (site : ClassSite) : List String :=
  let found := site.supertypes.toList.filterMap (supertypeOf? env file site)
  -- What is constructed comes first, as it is the superclass.
  ((found.filter fun entry => entry.1) ++ found.filter fun entry => !entry.1).map Prod.snd

/-- Notes the supertypes of a class. -/
def resolveSite (file : File) (env : Environment) (site : ClassSite) : Environment :=
  let add (all : List String) (name : String) : List String :=
    -- A supertype may be known from another part of the class.
    if all.contains name then all else all ++ [name]
  env.modifyClass site.name fun info =>
    { info with supertypes := (supertypesOf env file site).foldl add info.supertypes }

def resolveSupertypes (env : Environment) (file : File) : Environment :=
  file.sites.foldl (resolveSite file) env

/-- Declares the members of one top-level declaration. -/
def declareMembers (file : File) (env : Environment) (id : NodeId) :
    Except EnvironmentError Environment :=
  let source : SignatureSource :=
    -- Classes are asked for as they are now, with all files declared.
    { forest := file.parsed.forest, scope := file.scope, isClass := env.hasClass }
  match file.parsed.forest.kind? (some id) with
  | some (.node .classDeclaration) | some (.node .objectDeclaration) =>
    (source.classMembers file.classNames [] id).foldlM (fun env m => env.addMember m.owner m) env
  | some (.node .propertyDeclaration) | some (.node .functionDeclaration) =>
    match source.member? file.facade {} id with
    | some m => .ok (env.addTopLevel file.scope.package m .source)
    | none => .ok env
  | _ => .ok env

def declareFileMembers (env : Environment) (file : File) : Except EnvironmentError Environment :=
  (file.parsed.forest.topLevelDeclarations file.parsed.root).toList.foldlM (declareMembers file) env

end Binding

/-- Binds files and declares what is in them. -/
def bindUnits (env : Environment) (units : List ParsedUnit) (defaultImports : List String) :
    Except EnvironmentError (Environment × List BoundUnit) := do
  let files := units.map (Binding.File.ofParsed defaultImports)
  -- The classes of all files first: supertypes and types may be of any of them.
  let env ← files.foldlM Binding.declareClasses env
  let env := files.foldl Binding.resolveSupertypes env
  let env ← files.foldlM Binding.declareFileMembers env
  return (env, files.map Binding.File.boundUnit)

end KotlinTree
