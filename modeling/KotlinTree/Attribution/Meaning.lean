import KotlinTree.Attribution.Lookup

/-!
What a name means, alone, after a qualifier or in the path of an import. The first of the places that are
searched decides; a name that none of them has is a failure.
-/

namespace KotlinTree.Attribution

/-- What a part of a chain stands for, which decides where the next name is looked up. -/
inductive Qualifier where
  | value (type : Ty)
  | classType (type : Ty)
  | package (name : String)
  deriving DecidableEq, Repr, Inhabited

namespace Qualifier

/-- The type of a node that stands for this. -/
def type : Qualifier → Ty
  | .value t | .classType t => t
  | .package _ => .unknown

/-- The type of its value. The name of a class stands for its only object, or for its companion. -/
def valueType (env : Environment) : Qualifier → Ty
  | .value t => t
  -- An object has no companion, and stands for itself.
  | .classType t => if isSingleton env t then t else (env.companionOf? t).getD t
  | .package _ => .unknown

end Qualifier

/-- What a name means. -/
inductive Meaning where
  | package (name : String)
  | classType (type : Ty)
  | member (m : Member)
  | localVariable (type : Ty)
  | localFunction (result : Ty)
  /-- What it is looked up on is unknown, which is not its fault. -/
  | indeterminate
  | unresolved (failure : Failure)
  deriving DecidableEq, Repr, Inhabited

namespace Setting

/-- A class that is named: itself, or its constructor when it is called. -/
def classMeaning (s : Setting) (name : String) (p : Purpose) : Meaning :=
  match p.count? with
  | some count => .member (constructorOf s.env (.of name) count)
  | none => .classType (.of name)

/-- A local function that is called, or a local variable. -/
def localMeaning? (st : State) (name : String) (p : Purpose) : Option Meaning :=
  -- A function is asked for only in a call; a variable may be called as well.
  (p.count?.bind fun _ => (st.localFunction? name).map Meaning.localFunction).or
    ((st.local? name).map .localVariable)

/-- What an import of the name brings: a class, else a member of a file. -/
def importedMeaning? (s : Setting) (name : String) (p : Purpose) : Option Meaning :=
  (s.unit.scope.importPath? name).bind fun path =>
    -- A class comes before a member of a file, by the same path.
    ((qualifiedToClass? path s.env.hasClass).map (s.classMeaning · p)).or
      ((Text.beforeLast? (· = '.') path).bind fun package =>
        (topLevelMember? s.env package (Text.afterLast (· = '.') path) p).map .member)

/-- What a name means outside all classes. -/
def outerMeaning? (s : Setting) (enclosing : List String) (name : String) (p : Purpose) :
    Option Meaning :=
  let scope := s.unit.scope
  -- The package of the file, what is imported, a class by its simple name, then what is imported by
  -- default.
  ((topLevelMember? s.env scope.package name p).map Meaning.member).or <|
    (s.importedMeaning? name p).or <|
    ((scope.resolveSimple? name enclosing s.env.hasClass).map (s.classMeaning · p)).or <|
    (((scope.implicitPackages.drop 1).findSome? (topLevelMember? s.env · name p)).map
      Meaning.member).or <|
    if p.count?.isNone && s.env.hasPackage name then some (.package name) else none

/-- What a name means where it stands alone: something local, else a member of an implicit
receiver, else what is declared outside. -/
def nameMeaning (s : Setting) (st : State) (name : String) (p : Purpose) : Meaning :=
  -- A name that is missing has been reported by the parser.
  if name = "" then .indeterminate
  else match localMeaning? st name p with
    | some meaning => meaning
    | none =>
      match s.receiverMember name p true false st.frames with
      | .found m => .member m
      | .indeterminate => .indeterminate
      -- A receiver of which nothing is known may have any member, so nothing outside is searched.
      | .absent =>
        (s.outerMeaning? st.enclosing name p).getD (.unresolved (.unresolvedReference name))

/-- What a name in a package means: a class, else a package, else a member of a file. -/
def packageMemberMeaning (s : Setting) (package name : String) (p : Purpose) : Meaning :=
  let full := inPackage package name
  -- Here a class comes before a package of the same name.
  if s.env.hasClass full then s.classMeaning full p
  else if p.count?.isNone && s.env.hasPackage full then .package full
  else ((topLevelMember? s.env package name p).map .member).getD
    (.unresolved (.unresolvedReference full))

/-- What a name means through the name of a class: a class inside it, else a member. -/
def classMemberMeaning (s : Setting) (t : Ty) (name : String) (p : Purpose) : Meaning :=
  match t.name? with
  | none => .indeterminate
  | some owner =>
    let nested := owner ++ "$" ++ name
    if s.env.hasClass nested then s.classMeaning nested p
    else ((s.staticMember? t name p).map .member).getD
      (.unresolved (.unresolvedMember name owner))

/-- What a name means on a value. -/
def valueMemberMeaning (s : Setting) (t : Ty) (name : String) (p : Purpose) : Meaning :=
  if t.isUnknown then .indeterminate
  else ((s.instanceMember? t name p).map .member).getD
    (.unresolved (.unresolvedMember name t.notNull.render))

/-- What a name means after a qualifier. -/
def memberMeaning (s : Setting) (qualifier : Qualifier) (name : String) (p : Purpose) : Meaning :=
  match qualifier with
  | .package package => s.packageMemberMeaning package name p
  | .classType t => s.classMemberMeaning t name p
  | .value t => s.valueMemberMeaning t name p

/-- What a name means on a superclass, where only it and the classes above it are searched. -/
def superMemberMeaning (s : Setting) (t : Ty) (name : String) (p : Purpose) : Meaning :=
  if t.isUnknown || name = "" then .indeterminate
  else ((superMember? s.env t name p).map .member).getD
    (.unresolved (.unsupportedSuperMember name t.render))

/-- The type of a member at a node: a chain that can be cut short may yield nothing. -/
def typeAt (s : Setting) (node : NodeId) (access : AccessKind) (t : Ty) : Ty :=
  -- A missing value cuts the whole chain short, so what follows in it may be missing as well.
  if access = .nullSafe || s.forest.isShortCircuited node then t.nullable else t

/-- What a node of some meaning stands for, what it is an instance of, and whether that is of a
platform class or file. -/
def interpret (s : Setting) (st : State) (node : NodeId) (access : AccessKind) :
    Meaning → Qualifier × Target × Bool
  | .package name => (.package name, { symbol := .package }, false)
  | .classType t =>
    (.classType t,
      -- The owner of a nested class is the one around it.
      { symbol := .classType, declared := t, owner := t.name?.bind (Text.beforeLast? (· = '$')) },
      s.env.isPlatform t)
  | .member m =>
    let (t, target, isPlatform) := memberUse s.env st m
    (.value (s.typeAt node access t), target, isPlatform)
  | .localVariable t =>
    (.value t, { symbol := .variable, declared := t, nullability := t.nullability }, false)
  | .localFunction t =>
    (.value t, { symbol := .method, declared := t, nullability := t.nullability }, false)
  | .indeterminate | .unresolved _ => (.value .unknown, {}, false)

/-- Records what a node means. A failure is reported where the name is. -/
def record (s : Setting) (place : Place) (node : NodeId) (nameToken : Option NodeId)
    (access : AccessKind) (meaning : Meaning) : Attributing Qualifier := do
  match meaning with
  | .unresolved failure => s.report nameToken failure
  | _ => pure ()
  let (qualifier, target, isPlatform) := s.interpret (← get) node access meaning
  -- The type is recorded at the node, the use at its place.
  recordType node qualifier.type
  recordUse place
    { node, name := s.forest.nameText nameToken, access, type := qualifier.type, target, isPlatform }
  return qualifier

/-- Records what a name that stands alone means. -/
def recordName (s : Setting) (token : NodeId) (meaning : Meaning) : Attributing Qualifier :=
  s.record .reference token (some token) .plain meaning

end Setting

end KotlinTree.Attribution

namespace KotlinTree.Attribution.Setting

/-- What a name means where nothing is around it. -/
def absoluteMeaning (s : Setting) (name : String) : Meaning :=
  if s.env.hasClass name then .classType (.of name)
  else if s.env.hasPackage name then .package name
  else .unresolved (.unresolvedReference name)

/-- Attributes a path from its first name on, which is absolute. -/
def importPath (s : Setting) (id : NodeId) : Attributing Qualifier := do
  if s.forest.kind? (some id) = some (.token .identifier) then
    s.recordName id (s.absoluteMeaning (s.forest.nameText (some id)))
  else match s.forest.data (some id) with
    | .access access =>
      -- What the name is looked up on comes first, and has a smaller number.
      if _ : access.expression < id then
        let qualifier ← s.importPath access.expression
        let meaning := s.memberMeaning qualifier (s.forest.nameText access.name) .any
        s.record .access id access.name .plain meaning
      else return .value .unknown
    | _ => return .value .unknown
termination_by id

/-- Attributes the path of an import, if there is one. -/
def importUse (s : Setting) (id : NodeId) : Attributing Unit := do
  match s.forest.data (some id) with
  | .importDirective directive =>
    match directive.path with
    | some path => do let _ ← s.importPath path
    | none => return
  | _ => return

end KotlinTree.Attribution.Setting
