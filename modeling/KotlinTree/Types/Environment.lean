import Std.Data.HashMap
import Std.Data.HashSet
import KotlinTree.Types.Member

/-!
What is declared: classes, packages, and members of files. Declarations are added one after
another; the whole is then checked for supertypes that nothing declares.
-/

namespace KotlinTree

/-- Reasons why declarations do not go together. -/
inductive EnvironmentError where
  | conflictingClassKind (name : String) (first second : ClassKind)
  | unknownSupertype (name supertype : String)
  | unknownOwner (owner member : String)
  | malformedStub (origin : String)
  | unreadable (path : String)
  deriving DecidableEq, Repr

namespace EnvironmentError

def message : EnvironmentError → String
  | .conflictingClassKind name first second =>
    "class " ++ name ++ " is declared both as " ++ first.name ++ " and as " ++ second.name
  | .unknownSupertype name supertype => "class " ++ name ++ " extends unknown type " ++ supertype
  | .unknownOwner owner member => "member " ++ member ++ " added to unknown class " ++ owner
  | .malformedStub origin => "malformed stub JSON in " ++ origin
  | .unreadable path => "failed to read stub file " ++ path

end EnvironmentError

/-- Declarations by name. -/
structure Environment where
  classes : Std.HashMap String ClassInfo := ∅
  /-- The names of the classes in the order of their declaration. -/
  order : Array String := #[]
  packages : Std.HashSet String := ∅
  /-- Members of files that are no extensions, by package and name. -/
  topLevels : Std.HashMap (String × String) (List Member) := ∅
  /-- Extensions by name. -/
  extensions : Std.HashMap String (List Member) := ∅
  /-- Where the members of files come from. -/
  facades : Std.HashMap String Origin := ∅
  deriving Inhabited

namespace Environment

/-- A dotted name and each name that it starts with. -/
def enclosingNames (parts : List String) : List String :=
  (parts.foldl (fun (names, before) part =>
    let name := match before with
      | none => part
      | some outer => outer ++ "." ++ part
    (names ++ [name], some name)) (([] : List String), (none : Option String))).1

/-- Declares a package and those around it. The package without a name needs no declaration. -/
def addPackage (env : Environment) (name : String) : Environment :=
  if name = "" then env
  else { env with packages :=
    (enclosingNames (Text.parts (· = '.') name)).foldl (·.insert ·) env.packages }

/-- Changes a class that has been declared. -/
def modifyClass (env : Environment) (name : String) (f : ClassInfo → ClassInfo) : Environment :=
  match env.classes[name]? with
  | some info => { env with classes := env.classes.insert name (f info) }
  | none => env

/-- Declares a class. A second declaration of the same kind adds to the first. -/
def addClass (env : Environment) (info : ClassInfo) : Environment × Option EnvironmentError :=
  let env := env.addPackage info.package
  match env.classes[info.name]? with
  | none =>
    ({ env with classes := env.classes.insert info.name info, order := env.order.push info.name },
      none)
  | some first =>
    -- Of two kinds, the first stays.
    if first.kind ≠ info.kind then
      (env, some (.conflictingClassKind info.name first.kind info.kind))
    else ({ env with classes := env.classes.insert info.name (first.merge info) }, none)

/-- Adds a member to a class that has been declared. -/
def addMember (env : Environment) (owner : String) (m : Member) :
    Except EnvironmentError Environment :=
  match env.classes[owner]? with
  | some info => .ok { env with classes := env.classes.insert owner (info.addMember m) }
  | none => .error (.unknownOwner owner m.name)

/-- Declares a member of a file in a package. -/
def addTopLevel (env : Environment) (package : String) (m : Member) (origin : Origin) :
    Environment :=
  let env := env.addPackage package
  -- The origin is that of the last member declared.
  let env := { env with facades := env.facades.insert m.owner origin }
  if m.receiver.isSome then
    { env with extensions := env.extensions.insert m.name (env.extensions.getD m.name [] ++ [m]) }
  else
    let key := (package, m.name)
    { env with topLevels := env.topLevels.insert key (env.topLevels.getD key [] ++ [m]) }

/-- The first supertype of a class that nothing declares. -/
def missingSupertype? (env : Environment) (info : ClassInfo) : Option EnvironmentError :=
  (info.supertypes.find? fun name => !env.classes.contains name).map
    (.unknownSupertype info.name ·)

/-- The first class in the order of declaration that lacks a supertype. -/
def incompleteness? (env : Environment) : Option EnvironmentError :=
  env.order.toList.findSome? fun name => env.classes[name]?.bind env.missingSupertype?

/-- The declarations, if they are complete. -/
def freeze (env : Environment) : Except EnvironmentError Environment :=
  match env.incompleteness? with
  | some e => .error e
  | none => .ok env

def classInfo? (env : Environment) (name : String) : Option ClassInfo := env.classes[name]?

/-- The class that a type names. -/
def classOf? (env : Environment) (t : Ty) : Option ClassInfo := t.name?.bind env.classInfo?

def hasClass (env : Environment) (name : String) : Bool := env.classes.contains name

def hasPackage (env : Environment) (name : String) : Bool := env.packages.contains name

/-- The class of a binary name as a type. -/
def resolveType? (env : Environment) (name : String) : Option Ty :=
  (env.classInfo? name).map fun info => .of info.name

/-- The members of a name that a type's own class declares. -/
def membersNamed (env : Environment) (t : Ty) (name : String) : List Member :=
  ((env.classOf? t).map (·.membersNamed name)).getD []

/-- A member of a name that a type's own class declares, a field before others. -/
def resolveMember? (env : Environment) (t : Ty) (name : String) : Option Member :=
  let members := env.membersNamed t name
  (members.find? Member.isField).or members.head?

/-- The supertypes of a class as they are declared; by default the root of all classes. -/
def supertypes (env : Environment) (name : String) : List String :=
  match env.classInfo? name with
  | none => []
  | some info =>
    if info.supertypes.isEmpty then if info.name = Ty.anyName then [] else [Ty.anyName]
    else info.supertypes

/-- The companion of a type's class. -/
def companionOf? (env : Environment) (t : Ty) : Option Ty :=
  (env.classOf? t).bind fun info => info.companion.map .of

def classKind? (env : Environment) (t : Ty) : Option ClassKind :=
  (env.classOf? t).map ClassInfo.kind

/-- Where a class or the members of a file come from. -/
def ownerOrigin? (env : Environment) (owner : String) : Option Origin :=
  ((env.classInfo? owner).map ClassInfo.origin).or env.facades[owner]?

def origin? (env : Environment) (t : Ty) : Option Origin := t.name?.bind env.ownerOrigin?

def isSource (env : Environment) (t : Ty) : Bool := env.origin? t = some .source

def isPlatform (env : Environment) (t : Ty) : Bool := env.origin? t = some .platform

/-- What is known about a member's value: what is annotated, else nothing for a platform member,
else what its type says. -/
def nullabilityOf (env : Environment) (m : Member) : Nullability :=
  match m.annotated with
  | some n => n
  | none => if env.ownerOrigin? m.owner = some .platform then .unknown else m.type.nullability

/-- The members of a package's files that are no extensions. -/
def topLevel (env : Environment) (package name : String) : List Member :=
  env.topLevels.getD (package, name) []

end Environment

end KotlinTree
