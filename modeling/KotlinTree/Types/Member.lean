import KotlinTree.Syntax.Node
import KotlinTree.Types.Basic

/-!
Members and classes as they are declared.
-/

namespace KotlinTree

/-- Where a definition comes from. -/
inductive Origin where
  | source
  /-- Compiled with its nullability declared. -/
  | library
  /-- Compiled without: nullability is known only where it is annotated. -/
  | platform
  deriving DecidableEq, Repr, Inhabited

def Origin.name : Origin → String
  | .source => "Source"
  | .library => "Library"
  | .platform => "Platform"

inductive MemberKind where
  | field | method | constructor
  deriving DecidableEq, Repr, Inhabited

def MemberKind.name : MemberKind → String
  | .field => "Field"
  | .method => "Method"
  | .constructor => "Constructor"

/-- The signature of a member of a class or of a file. -/
structure Member where
  name : String
  kind : MemberKind
  /-- The type of a field, or what a method returns. -/
  type : Ty
  /-- The class or file that declares the member. -/
  owner : String
  parameters : List Ty := []
  isVararg : Bool := false
  isStatic : Bool := false
  /-- A property that stands for a getter. -/
  isSynthetic : Bool := false
  /-- Nullability that is declared apart from the type. -/
  annotated : Option Nullability := none
  /-- What an extension is applied to. -/
  receiver : Option Ty := none
  deriving DecidableEq, Repr, Inhabited

namespace Member

/-- The member can be called with so many arguments. -/
def acceptsArity (m : Member) (count : Nat) : Bool :=
  if m.isVararg then m.parameters.length ≤ count + 1 else m.parameters.length = count

def isField (m : Member) : Bool := m.kind = .field

end Member

/-- The definition of a class, interface or object. -/
structure ClassInfo where
  name : String
  package : String
  kind : ClassKind
  origin : Origin
  /-- Supertypes as they are declared, the superclass first when it is known. -/
  supertypes : List String := []
  /-- Members in the order of their declaration. -/
  members : List Member := []
  companion : Option String := none
  deriving DecidableEq, Repr, Inhabited

namespace ClassInfo

def addMember (info : ClassInfo) (m : Member) : ClassInfo :=
  { info with members := info.members ++ [m] }

def membersNamed (info : ClassInfo) (name : String) : List Member :=
  info.members.filter fun m => m.name = name

/-- The names of the members, each where it is declared first. -/
def memberNames (info : ClassInfo) : List String := (info.members.map Member.name).eraseDups

/-- The members by name: names in the order of their first declaration, overloads in order. -/
def groupedMembers (info : ClassInfo) : List Member :=
  info.memberNames.flatMap info.membersNamed

def hasFields (info : ClassInfo) : Bool := info.members.any Member.isField

/-- What a second declaration of the class adds to the first. -/
def merge (first second : ClassInfo) : ClassInfo :=
  { first with
    supertypes := second.supertypes.foldl
      (fun all name => if all.contains name then all else all ++ [name]) first.supertypes
    members := first.members ++ second.groupedMembers
    companion := first.companion.or second.companion }

end ClassInfo

end KotlinTree
