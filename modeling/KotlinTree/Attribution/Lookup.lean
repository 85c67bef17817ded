import KotlinTree.Attribution.State
import KotlinTree.Types.Subtyping

/-!
Looking for members: on a type and the types above it, on companions, through class names, on
implicit receivers, and among the members of files.
-/

namespace KotlinTree.Attribution

/-- What a member is wanted for. -/
inductive Purpose where
  /-- To be read or written. -/
  | value
  /-- To be called with so many arguments. -/
  | call (count : Nat)
  /-- To be named only. -/
  | any
  deriving DecidableEq, Repr, Inhabited

namespace Purpose

/-- The number of arguments of a call. -/
def count? : Purpose → Option Nat
  | .call count => some count
  | .value | .any => none

/-- Members of this kind are looked at. -/
def fits (p : Purpose) (m : Member) : Bool :=
  match p with
  | .value => m.kind = .field
  | .call _ => m.kind = .method
  | .any => true

/-- The member that is meant among those of a name: for a call one that takes the arguments, else
the first, and a field before others when it is only to be named. -/
def select? (p : Purpose) (members : List Member) : Option Member :=
  match p with
  | .call count => members.find? (·.acceptsArity count)
  | .value => members.head?
  | .any => (members.find? Member.isField).or members.head?

end Purpose

/-- The overload that takes so many arguments, else the first. -/
def overload? (members : List Member) (count : Nat) : Option Member :=
  (members.find? (·.acceptsArity count)).or members.head?

namespace Purpose

/-- As `select?`, but a call takes the first overload when none takes the arguments. -/
def selectLoosely? (p : Purpose) (members : List Member) : Option Member :=
  match p with
  | .call count => overload? members count
  | .value | .any => p.select? members

end Purpose

/-- The class of a type and those above it, nearest first. -/
def receiverChain (env : Environment) (t : Ty) : List String :=
  t.name?.toList ++ env.supertypesAbove t

/-- An interface without properties is passed over in the search for one. -/
def isPassedOver (env : Environment) (p : Purpose) (name : String) : Bool :=
  match p, env.classInfo? name with
  | .value, some info => info.kind = .interface && !info.hasFields
  | _, _ => false

/-- The members of a name on a type and on those above it that belong to its values, nearest
first. -/
def declaredMembers (env : Environment) (t : Ty) (name : String) (p : Purpose) : List Member :=
  ((receiverChain env t).filter fun owner => !isPassedOver env p owner).flatMap fun owner =>
    (env.membersNamed (.of owner) name).filter fun m => !m.isStatic && p.fits m

/-- The members of a name that a class declares for itself and not for its values. -/
def staticMembers (env : Environment) (owner name : String) (p : Purpose) : List Member :=
  (env.membersNamed (.of owner) name).filter fun m => m.isStatic && p.fits m

/-- A member of the companion of a type's class. -/
def companionMember? (env : Environment) (t : Ty) (name : String) (p : Purpose) : Option Member :=
  (env.companionOf? t).bind fun companion =>
    p.selectLoosely? (declaredMembers env companion name p)

/-- A property that stands for a getter; nothing that can be called. -/
def accessor? (env : Environment) (t : Ty) (name : String) (p : Purpose) : Option Member :=
  match p with
  | .call _ => none
  | .value | .any => env.syntheticAccessor? t name

/-- The class has one value, which its name stands for. -/
def isSingleton (env : Environment) (t : Ty) : Bool :=
  match env.classKind? t with
  | some .object | some .companionObject => true
  | _ => false

/-- A member of a superclass or of a class above it. -/
def superMember? (env : Environment) (t : Ty) (name : String) (p : Purpose) : Option Member :=
  (p.selectLoosely? (declaredMembers env t name p)).or (accessor? env t name p)

/-- A member of a package's files that is no extension. -/
def topLevelMember? (env : Environment) (package name : String) (p : Purpose) : Option Member :=
  p.selectLoosely? ((env.topLevel package name).filter p.fits)

/-- The constructor of a class for so many arguments; a class that declares none has one. -/
def constructorOf (env : Environment) (t : Ty) (count : Nat) : Member :=
  let declared := (env.membersNamed t constructorName).filter fun m => m.kind = .constructor
  (overload? declared count).getD
    { name := constructorName, kind := .constructor, type := t.notNull, owner := t.name?.getD "" }

namespace Setting

/-- A member of a file can be used here: its package is searched for bare names, or it is imported
by its name. -/
def isVisible (s : Setting) (m : Member) : Bool :=
  let package := packageOf m.owner
  s.unit.scope.implicitPackages.contains package ||
    s.unit.scope.explicitImports.any fun (_, path) =>
      Text.beforeLast? (· = '.') path = some package && Text.afterLast (· = '.') path = m.name

/-- Extensions that can be applied to a type here. -/
def extensions (s : Setting) (t : Ty) (name : String) (p : Purpose) : List Member :=
  (s.env.extensionsOf t name).filter fun m => s.isVisible m && p.fits m

/-- A member of a name on values of a type. Members of the type and of those above it come before
getters, extensions, and members of its companion. -/
def instanceMember? (s : Setting) (t : Ty) (name : String) (p : Purpose) : Option Member :=
  if t.isUnknown then none
  else
    -- Overloads that do not take the arguments are left for the end, after the companion.
    let declared := declaredMembers s.env t name p
    let extensions := s.extensions t name p
    (p.select? declared).or <| (accessor? s.env t name p).or <| (p.select? extensions).or <|
      (companionMember? s.env t name p).or <| p.selectLoosely? (declared ++ extensions)

/-- A member of a name through the name of a class: what an object has; else what the class
declares for itself, what its companion has, what classes above declare for themselves. -/
def staticMember? (s : Setting) (t : Ty) (name : String) (p : Purpose) : Option Member :=
  if isSingleton s.env t then s.instanceMember? t name p
  else
    -- The class itself is looked at before its companion, and what is above it after.
    let own := t.name?.toList.flatMap fun owner => staticMembers s.env owner name p
    let above := (s.env.supertypesAbove t).flatMap fun owner => staticMembers s.env owner name p
    (p.select? own).or <|
      ((s.env.companionOf? t).bind (s.instanceMember? · name p)).or <|
        p.selectLoosely? (own ++ above)

/-- The outcome of a search on implicit receivers. -/
inductive ReceiverMember where
  | found (m : Member)
  /-- The name may belong to a receiver of which nothing is known. -/
  | indeterminate
  | absent
  deriving DecidableEq, Repr, Inhabited

/-- A member of a name on the receivers from one on outwards. Where the objects of classes further
out are out of reach, their companions still count, and objects that are alone in their class. -/
def receiverMember (s : Setting) (name : String) (p : Purpose) (reachable sawUnknown : Bool) :
    List Frame → ReceiverMember
  | [] => if sawUnknown then .indeterminate else .absent
  | frame :: frames =>
    let found :=
      if reachable || isSingleton s.env frame.type then s.instanceMember? frame.type name p
      else companionMember? s.env frame.type name p
    match found with
    | some m => .found m
    | none => s.receiverMember name p (reachable && !frame.hidesOuter)
        (sawUnknown || (frame.type.isUnknown && reachable)) frames

end Setting

/-- The type of a member where it is used, what the use means, and whether a platform class or file
declares it. A member of unknown type has the type that has been learned of it. -/
def memberUse (env : Environment) (st : State) (m : Member) : Ty × Target × Bool :=
  let declared := if m.type.isUnknown then (st.inferred[(m.owner, m.name)]?).getD m.type else m.type
  let nullability := env.nullabilityOf { m with type := declared }
  (declared.withNullability nullability,
    { symbol := .ofMember m.kind, declared, owner := some m.owner, isSynthetic := m.isSynthetic,
      nullability },
    env.isPlatform (.of m.owner))

end KotlinTree.Attribution
