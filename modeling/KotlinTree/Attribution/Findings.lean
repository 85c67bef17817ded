import KotlinTree.Diagnostic
import KotlinTree.Syntax.Forest
import KotlinTree.Types.Member

/-!
What attribution finds out about a file: kinds of access to members, types of nodes, what names mean,
variables, and failures. Main statement: a safe access anywhere on the left of a chain decides whether the
chain can be cut short.
-/

namespace KotlinTree

/-- What the member of an access is looked up on. -/
inductive AccessKind where
  /-- A value, a class or a package. -/
  | plain
  /-- A value that may be missing; the access then yields nothing. -/
  | nullSafe
  /-- The current object. -/
  | onThis
  /-- The current object as its superclass. -/
  | onSuper
  deriving DecidableEq, Repr, Inhabited

def AccessKind.name : AccessKind → String
  | .plain => "plain"
  | .nullSafe => "null-safe"
  | .onThis => "this"
  | .onSuper => "super"

namespace Forest

/-- The kind of an access. What it is on decides before its operator does; a node that is no access
counts as a plain one. -/
def accessKind (f : Forest) (id : NodeId) : AccessKind :=
  match f.data (some id) with
  | .access access =>
    match f.kind? (some access.expression) with
    | some (.node .thisExpression) => .onThis
    | some (.node .superExpression) => .onSuper
    | _ => if access.isNullSafe then .nullSafe else .plain
  | _ => .plain

/-- What a link of a chain is applied to: the object of an access, the callee of a call. -/
def chainTail? (f : Forest) (id : NodeId) : Option NodeId :=
  match f.data (some id) with
  | .access access => some access.expression
  | .call call => some call.callee
  | _ => none

def isNullSafeAccess (f : Forest) (id : NodeId) : Bool :=
  match f.data (some id) with
  | .access access => access.isNullSafe
  | _ => false

/-- A safe access is among the links of a chain, which then yields nothing as a whole when that
link does. -/
def isShortCircuited (f : Forest) (id : NodeId) : Bool :=
  f.isNullSafeAccess id ||
    match f.chainTail? id with
    | some tail => if _ : tail < id then f.isShortCircuited tail else false
    | none => false
termination_by id

theorem isShortCircuited_of_isNullSafeAccess {f : Forest} {id : NodeId}
    (h : f.isNullSafeAccess id) : f.isShortCircuited id := by
  rw [isShortCircuited, h, Bool.true_or]

/-- A link passes on what is cut short before it. -/
theorem isShortCircuited_of_chainTail? {f : Forest} {id tail : NodeId} (ht : f.chainTail? id = some tail)
    (hlt : tail < id) (h : f.isShortCircuited tail) : f.isShortCircuited id := by
  rw [isShortCircuited, ht]
  simp only [hlt, dite_true, h, Bool.or_true]

end Forest

end KotlinTree

namespace KotlinTree.Attribution

/-- What a name means. -/
inductive SymbolKind where
  | package | classType | field | method | constructor
  /-- A local variable or a parameter. -/
  | variable
  | unresolved
  deriving DecidableEq, Repr, Inhabited

namespace SymbolKind

def name : SymbolKind → String
  | .package => "Package"
  | .classType => "Class"
  | .field => "Field"
  | .method => "Method"
  | .constructor => "Constructor"
  | .variable => "Variable"
  | .unresolved => "Unresolved"

def ofMember : MemberKind → SymbolKind
  | .field => .field
  | .method => .method
  | .constructor => .constructor

end SymbolKind

/-- The declaration that a name means. -/
structure Target where
  symbol : SymbolKind := .unresolved
  /-- The declared type, whatever the place of use. -/
  declared : Ty := .unknown
  /-- The class or the file that declares it. -/
  owner : Option String := none
  isSynthetic : Bool := false
  nullability : Nullability := .notNull
  deriving DecidableEq, Repr, Inhabited

/-- The use of a name, in an access or alone. -/
structure NameUse where
  node : NodeId
  name : String
  access : AccessKind
  /-- The type at the place of use. -/
  type : Ty
  target : Target
  isPlatform : Bool
  deriving DecidableEq, Repr, Inhabited

inductive VariableKind where
  /-- A member of a class or of a file. -/
  | property
  | localVariable
  | parameter
  deriving DecidableEq, Repr, Inhabited

def VariableKind.name : VariableKind → String
  | .property => "Property"
  | .localVariable => "Local"
  | .parameter => "Parameter"

/-- A declared variable, property or parameter. -/
structure Variable where
  name : String
  type : Ty
  /-- The class or file that declares a property. -/
  owner : Option String
  kind : VariableKind
  node : NodeId
  deriving DecidableEq, Repr, Inhabited

/-- Reasons why a name means nothing. -/
inductive Failure where
  | unresolvedMember (name qualifier : String)
  | unresolvedReference (name : String)
  | unsupportedSuperMember (name superclass : String)
  | noEnclosingClass (keyword : String)
  | unknownType (name : String)
  deriving DecidableEq, Repr, Inhabited

namespace Failure

def finding : Failure → Finding
  | .unresolvedMember .. => .unresolvedMember
  | .unresolvedReference _ => .unresolvedReference
  | .unsupportedSuperMember .. => .unsupportedSuperMember
  | .noEnclosingClass _ => .noEnclosingClass
  | .unknownType _ => .unknownTypeReference

/-- What the wording of a failure speaks of. -/
def arguments : Failure → List String
  | .unresolvedMember name qualifier => [name, qualifier]
  | .unresolvedReference name => [name]
  | .unsupportedSuperMember name superclass => [name, superclass]
  | .noEnclosingClass keyword => [keyword]
  | .unknownType name => [name]

def diagnostic (failure : Failure) (file : String) (span : Span) : Diagnostic :=
  .ofFinding file (span.start, span.size) failure.finding failure.arguments

end Failure

/-- A name is found after a point, or alone. -/
inductive Place where
  | access | reference
  deriving DecidableEq, Repr, Inhabited

/-- All that has been found out, in the order of its finding. What is found later about a node
counts. -/
structure Findings where
  types : Array (NodeId × Ty) := #[]
  uses : Array (Place × NameUse) := #[]
  declared : Array Variable := #[]
  diagnostics : Array Diagnostic := #[]
  deriving DecidableEq, Repr, Inhabited

end KotlinTree.Attribution
