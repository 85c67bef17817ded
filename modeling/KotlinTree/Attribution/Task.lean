import KotlinTree.Attribution.Meaning
import KotlinTree.Attribution.State

/-!
Written types in a file; the other parts that attribution goes through, and what it yields for each of
them.
-/

namespace KotlinTree

namespace Forest

def isTypeReference (f : Forest) (id : NodeId) : Bool :=
  f.kind? (some id) = some (.node .typeReference)

/-- The types written directly inside another: its arguments, or the parts of a function type. -/
def innerTypeReferences (f : Forest) (id : NodeId) : List NodeId :=
  (f.children (some id)).toList.flatMap fun child =>
    match f.kind? (some child) with
    | some (.node .typeReference) => [child]
    | some (.node .typeArgumentList) => (f.children (some child)).toList.filter f.isTypeReference
    | _ => []

/-- A written type and all those inside it, each before those inside it. -/
def typeReferences (f : Forest) (id : NodeId) : List NodeId :=
  if f.isTypeReference id then
    id :: (f.innerTypeReferences id).flatMap fun inner =>
      if _ : inner < id then f.typeReferences inner else []
  else []
termination_by id

end Forest

namespace Attribution.Setting

/-- The type that is written at a node, by the names that are in scope. -/
def writtenType (s : Setting) (st : State) (id : NodeId) : Ty :=
  s.unit.scope.resolveType s.forest (some id)
    { enclosing := st.enclosing, typeParameters := st.typeParameters } s.env.hasClass

/-- Records one written type. A name that means nothing is reported. -/
def recordWrittenType (s : Setting) (id : NodeId) : Attributing Ty := do
  let t := s.writtenType (← get) id
  match t, s.forest.data (some id) with
  | .unknown, .typeReference reference =>
    match reference.name.bind s.forest.chainSegments? with
    | some segments => s.report (some id) (.unknownType (dotted segments))
    | none => pure ()
  | _, _ => pure ()
  recordType id t
  return t

/-- Records a written type and those inside it, and yields it. -/
def typeUse (s : Setting) (id : Option NodeId) : Attributing Ty := do
  match (id.map s.forest.typeReferences).getD [] with
  | [] => return .unknown
  | id :: inner =>
    let t ← s.recordWrittenType id
    inner.forM fun id => do let _ ← s.recordWrittenType id
    return t

/-- The type that is written, if one is. -/
def typeUse? (s : Setting) (id : Option NodeId) : Attributing (Option Ty) := do
  match id with
  | none => return none
  | some id => return some (← s.typeUse (some id))

end Attribution.Setting

end KotlinTree

namespace KotlinTree.Attribution

/-- Where a declaration stands. -/
inductive Owner where
  /-- In a class that is known elsewhere, or in a file. -/
  | named (name : String)
  /-- In a block. -/
  | block
  /-- In a class that nothing else knows. -/
  | anonymous
  deriving DecidableEq, Repr, Inhabited

def Owner.name? : Owner → Option String
  | .named name => some name
  | .block | .anonymous => none

/-- What is to be attributed. -/
inductive Task where
  | expression (id : NodeId)
  /-- What another name stands after. -/
  | qualifier (id : NodeId)
  | statement (id : NodeId)
  | declaration (owner : Owner) (id : NodeId)
  deriving DecidableEq, Repr

namespace Task

/-- What it yields. -/
abbrev Result : Task → Type
  | .expression _ | .statement _ => Ty
  | .qualifier _ => Qualifier
  | .declaration .. => Unit

/-- What it yields when nothing is known. -/
def nothing : (task : Task) → task.Result
  | .expression _ | .statement _ => .unknown
  | .qualifier _ => .value .unknown
  | .declaration .. => ()

end Task

/-- How to attribute the parts of a node. -/
abbrev Tasks := (task : Task) → Attributing task.Result

namespace Tasks

/-- The type of an expression, unknown when there is none. -/
def typeOf (rec : Tasks) (id : Option NodeId) : Attributing Ty :=
  match id with
  | some id => rec (.expression id)
  | none => return .unknown

def qualifierOf (rec : Tasks) (id : NodeId) : Attributing Qualifier := rec (.qualifier id)

/-- The value of a statement, unknown when there is none. -/
def statement (rec : Tasks) (id : Option NodeId) : Attributing Ty :=
  match id with
  | some id => rec (.statement id)
  | none => return .unknown

def declaration (rec : Tasks) (owner : Owner) (id : NodeId) : Attributing Unit :=
  rec (.declaration owner id)

/-- Attributes expressions one after another. -/
def types (rec : Tasks) (ids : List NodeId) : Attributing Unit :=
  ids.forM fun id => do let _ ← rec.typeOf (some id)

end Tasks

end KotlinTree.Attribution
