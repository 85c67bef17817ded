import KotlinTree.Text.Capital
import KotlinTree.Types.Environment

/-!
Subtypes by declared supertypes, the least type above two, and getters of platform classes as properties.
-/

namespace KotlinTree.Environment

/-- How many supertypes of a class are looked at. -/
def maxSupertypes : Nat := 128

/-- Walks on from classes in `queue`, after those that have been found, the last one first. -/
def walkFrom (env : Environment) (start : String) (found queue : List String) : List String :=
  match queue with
  | [] => found.reverse
  -- A class may be in the queue twice, so what has been found is passed over, and cycles end.
  | name :: rest =>
    if maxSupertypes ≤ found.length then found.reverse
    else if name = start ∨ name ∈ found then env.walkFrom start found rest
    else env.walkFrom start (name :: found) (rest ++ env.supertypes name)
termination_by (maxSupertypes - found.length, queue.length)
decreasing_by all_goals (simp_wf; omega)

/-- The classes above a class, nearest first, without the class itself. -/
def supertypeWalk (env : Environment) (name : String) : List String :=
  env.walkFrom name [] (env.supertypes name)

/-- The classes above a type. -/
def supertypesAbove (env : Environment) (t : Ty) : List String :=
  (t.name?.map env.supertypeWalk).getD []

/-- A class or one above it; the roots are above every class. -/
def isSubclass (env : Environment) (sub sup : String) : Bool :=
  sub = sup || sup = Ty.anyName || sup = Ty.javaObjectName || (env.supertypeWalk sub).contains sup

/-- Values of the first type are values of the second. Nothing is known of an unknown type, and a
platform type goes with both nullabilities. -/
def isSubtype (env : Environment) (sub sup : Ty) : Bool :=
  match sub.name?, sup.name? with
  | some subName, some supName =>
    -- What is not known to be missing may go for what is there.
    if sub.nullability = .nullable ∧ sup.nullability = .notNull then false
    else match sub with
      | .nothing _ => true
      | _ => env.isSubclass subName supName
  | _, _ => false

/-- The least class above two different ones, as far as it is declared. -/
def leastAbove (env : Environment) (left right : String) : String :=
  if env.isSubtype (.of left) (.of right) then right
  else if env.isSubtype (.of right) (.of left) then left
  else ((env.supertypeWalk left).find? fun name => env.isSubtype (.of right) (.of name)).getD
    Ty.anyName

/-- The least type above two. `null` adds only that a value may be missing. -/
def leastUpperBound (env : Environment) : Ty → Ty → Ty
  | .unknown, _ | _, .unknown => .unknown
  -- No value but a missing one has this type, so it adds at most that.
  | .nothing isNullable, other | other, .nothing isNullable =>
    if isNullable then other.nullable else other
  | .named left n, .named right k =>
    .named (if left = right then left else env.leastAbove left right) (n.join k)

/-- Extensions of a name that can be applied to a type. -/
def extensionsOf (env : Environment) (receiver : Ty) (name : String) : List Member :=
  (env.extensions.getD name []).filter fun m =>
    (m.receiver.map fun expected => env.isSubtype receiver.notNull expected.notNull).getD false

/-- The name of the getter of a property. -/
def getterName : List Char → Option String
  | [] => none
  | first :: rest => some (String.ofList ("get".toList ++ Text.capital first ++ rest))

/-- A property named like a question stands for the method of its own name. -/
def isQuestion : List Char → Bool
  | 'i' :: 's' :: c :: _ => c.isUpper
  | _ => false

def isGetter (m : Member) : Bool := m.kind = .method && m.parameters.isEmpty && !m.isStatic

def isQuestionGetter (m : Member) : Bool :=
  m.kind = .method && m.parameters.isEmpty && m.type.name? = some Ty.booleanName

/-- The getter that a platform class declares for a property. -/
def getterIn? (env : Environment) (name getter owner : String) : Option Member :=
  -- Only a platform class has getters that stand for properties.
  if env.isPlatform (.of owner) then
    ((env.membersNamed (.of owner) getter).find? isGetter).or
      (if isQuestion name.toList then (env.membersNamed (.of owner) name).find? isQuestionGetter
        else none)
  else none

/-- The property of a name that a getter of a type or of one above it stands for. -/
def syntheticAccessor? (env : Environment) (owner : Ty) (name : String) : Option Member :=
  match owner.name?, getterName name.toList with
  | some ownerName, some getter =>
    ((ownerName :: env.supertypeWalk ownerName).findSome? (env.getterIn? name getter)).map
      fun m => { m with isSynthetic := true }
  | _, _ => none

end KotlinTree.Environment
