import KotlinTree.Document
import KotlinTree.Types.Environment

/-!
Stubs: declarations of compiled classes and files, written as documents.
-/

namespace KotlinTree

/-- Where the declarations of a stub come from. -/
inductive StubOrigin where
  | library | platform
  deriving DecidableEq, Repr

def StubOrigin.origin : StubOrigin → Origin
  | .library => .library
  | .platform => .platform

/-- A member of a class. -/
structure MemberStub where
  name : String
  kind : MemberKind := .method
  type : Option String := none
  parameters : List String := []
  isVararg : Bool := false
  isStatic : Bool := false
  nullability : Option Nullability := none
  deriving DecidableEq, Repr

/-- The companion of a class. -/
structure CompanionStub where
  name : String := "Companion"
  members : List MemberStub := []
  deriving DecidableEq, Repr

/-- A class, by its binary name. -/
structure ClassStub where
  name : String
  kind : ClassKind := .plainClass
  origin : Option StubOrigin := none
  supertypes : List String := []
  members : List MemberStub := []
  companion : Option CompanionStub := none
  deriving DecidableEq, Repr

/-- A function or property of a file. -/
structure FunctionStub where
  name : String
  /-- The class that a file's members are compiled into. -/
  facade : String
  receiver : Option String := none
  kind : MemberKind := .method
  type : Option String := none
  parameters : List String := []
  isVararg : Bool := false
  nullability : Option Nullability := none
  deriving DecidableEq, Repr

/-- The declarations of one stub. -/
structure StubFile where
  origin : Option StubOrigin := none
  classes : List ClassStub := []
  functions : List FunctionStub := []
  deriving DecidableEq, Repr

namespace StubFile

open Document

def originOf? : Document → Option StubOrigin :=
  choice? [("library", .library), ("platform", .platform)]

def classKindOf? : Document → Option ClassKind :=
  choice? [("class", .plainClass), ("interface", .interface), ("object", .object)]

def memberKindOf? : Document → Option MemberKind :=
  choice? [("field", .field), ("method", .method), ("constructor", .constructor)]

def nullabilityOf? : Document → Option Nullability :=
  choice? [("nullable", .nullable), ("notNull", .notNull)]

def memberOf? (document : Document) : Option MemberStub := do
  let fields ← record?
    ["name", "kind", "type", "parameters", "vararg", "static", "nullability"] document
  return {
    name := ← required? fields "name" string?
    kind := ← optional? fields "kind" memberKindOf? .method
    type := ← optional? fields "type" (nullable? string?) none
    parameters := ← optional? fields "parameters" (list? string?) []
    isVararg := ← optional? fields "vararg" bool? false
    isStatic := ← optional? fields "static" bool? false
    nullability := ← optional? fields "nullability" (nullable? nullabilityOf?) none }

def companionOf? (document : Document) : Option CompanionStub := do
  let fields ← record? ["name", "members"] document
  return {
    name := ← optional? fields "name" string? "Companion"
    members := ← optional? fields "members" (list? memberOf?) [] }

def classOf? (document : Document) : Option ClassStub := do
  let fields ← record? ["name", "kind", "origin", "supertypes", "members", "companion"] document
  return {
    name := ← required? fields "name" string?
    kind := ← optional? fields "kind" classKindOf? .plainClass
    origin := ← optional? fields "origin" (nullable? originOf?) none
    supertypes := ← optional? fields "supertypes" (list? string?) []
    members := ← optional? fields "members" (list? memberOf?) []
    companion := ← optional? fields "companion" (nullable? companionOf?) none }

def functionOf? (document : Document) : Option FunctionStub := do
  let fields ← record?
    ["name", "facade", "receiver", "kind", "type", "parameters", "vararg", "nullability"] document
  return {
    name := ← required? fields "name" string?
    facade := ← required? fields "facade" string?
    receiver := ← optional? fields "receiver" (nullable? string?) none
    kind := ← optional? fields "kind" memberKindOf? .method
    type := ← optional? fields "type" (nullable? string?) none
    parameters := ← optional? fields "parameters" (list? string?) []
    isVararg := ← optional? fields "vararg" bool? false
    nullability := ← optional? fields "nullability" (nullable? nullabilityOf?) none }

def ofDocument? (document : Document) : Option StubFile := do
  let fields ← record? ["origin", "classes", "functions"] document
  return {
    origin := ← optional? fields "origin" (nullable? originOf?) none
    classes := ← optional? fields "classes" (list? classOf?) []
    functions := ← optional? fields "functions" (list? functionOf?) [] }

/-- Reads a stub; `origin` names it in the error. -/
def parse (origin text : String) : Except EnvironmentError StubFile :=
  match (Document.parse? text).bind ofDocument? with
  | some stub => .ok stub
  | none => .error (.malformedStub origin)

end StubFile

/-- The type of a member: what is written, else its own class for a constructor and no value for
anything else. -/
def stubType (type : Option String) (kind : MemberKind) (owner : String) : Ty :=
  match type with
  | some text => .parse text
  | none => if kind = .constructor then .of owner else .of Ty.unitName

def MemberStub.member (stub : MemberStub) (owner : String) : Member :=
  { name := stub.name
    kind := stub.kind
    type := stubType stub.type stub.kind owner
    owner
    parameters := stub.parameters.map .parse
    isVararg := stub.isVararg
    isStatic := stub.isStatic
    annotated := stub.nullability }

def FunctionStub.member (stub : FunctionStub) : Member :=
  { name := stub.name
    kind := if stub.kind = .field then .field else .method
    type := stubType stub.type stub.kind ""
    owner := stub.facade
    parameters := stub.parameters.map .parse
    isVararg := stub.isVararg
    isStatic := true
    annotated := stub.nullability
    receiver := stub.receiver.map .parse }

/-- The binary name of a class's companion. -/
def ClassStub.companionName (stub : ClassStub) (companion : CompanionStub) : String :=
  stub.name ++ "$" ++ companion.name

/-- The definitions that a class brings: that of its companion before its own. -/
def ClassStub.classInfos (stub : ClassStub) (fileOrigin : StubOrigin) : List ClassInfo :=
  let origin := (stub.origin.getD fileOrigin).origin
  let package := packageOf stub.name
  let companion := stub.companion.toList.map fun companion =>
    let name := stub.companionName companion
    ({ name, package, kind := .companionObject, origin,
       members := companion.members.map (·.member name) } : ClassInfo)
  companion ++ [{ name := stub.name, package, kind := stub.kind, origin
                  supertypes := stub.supertypes
                  members := stub.members.map (·.member stub.name)
                  companion := stub.companion.map stub.companionName }]

namespace Environment

/-- Declares classes up to the first that conflicts. -/
def addClasses (env : Environment) : List ClassInfo → Environment × Option EnvironmentError
  | [] => (env, none)
  | info :: infos =>
    match env.addClass info with
    | (env, none) => env.addClasses infos
    | (env, some e) => (env, some e)

/-- Declares what a stub holds: its classes up to the first that conflicts, then its functions. -/
def addStub (env : Environment) (stub : StubFile) : Environment × Option EnvironmentError :=
  let origin := stub.origin.getD .platform
  match env.addClasses (stub.classes.flatMap (·.classInfos origin)) with
  | (env, some e) => (env, some e)
  | (env, none) =>
    (stub.functions.foldl
      (fun env f => env.addTopLevel (packageOf f.facade) f.member origin.origin) env, none)

/-- Reads a stub and declares what it holds. -/
def addStubText (env : Environment) (origin text : String) :
    Environment × Option EnvironmentError :=
  match StubFile.parse origin text with
  | .ok stub => env.addStub stub
  | .error e => (env, some e)

end Environment

end KotlinTree
