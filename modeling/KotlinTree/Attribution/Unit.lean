import KotlinTree.Attribution.Expression
import KotlinTree.Attribution.Meaning

/-!
Attributed files: a tree with what is known about its nodes. A file is attributed as a whole or not
at all.
-/

namespace KotlinTree

open Attribution

/-- Reasons why a file is not attributed. -/
inductive AttributionError where
  | cancelled (file : String)
  /-- The file has not been bound. -/
  | unbound (file : String)
  deriving DecidableEq, Repr

def AttributionError.message : AttributionError → String
  | .cancelled file => "attribution of '" ++ file ++ "' was cancelled"
  | .unbound file => "'" ++ file ++ "' has no bound unit"

/-- A file with the types of its nodes and the meanings of its names. -/
structure AttributedUnit where
  fileName : String
  forest : Forest
  root : NodeId
  types : Std.HashMap NodeId Ty
  /-- Accesses by node. -/
  accessUses : Std.HashMap NodeId NameUse
  /-- Names that stand alone, by node. -/
  references : Std.HashMap NodeId NameUse
  /-- The nodes of accesses in the order of the source. -/
  accessOrder : List NodeId
  /-- Variables in the order of their declaration. -/
  declared : List Variable
  diagnostics : List Diagnostic

namespace Attribution

/-- The uses of names at some kind of place, by node. -/
def Findings.usesAt (findings : Findings) (place : Place) : Std.HashMap NodeId NameUse :=
  findings.uses.foldl
    (fun all (at_, name) => if at_ = place then all.insert name.node name else all) ∅

/-- Nodes by where they start and then by where they end. -/
def inSourceOrder (f : Forest) (ids : List NodeId) : List NodeId :=
  ids.mergeSort fun a b =>
    let (a, b) := (f.span (some a), f.span (some b))
    a.start < b.start || (a.start = b.start && a.stop ≤ b.stop)

/-- What has been found out about a file as a whole. -/
def Findings.unit (findings : Findings) (u : ParsedUnit) : AttributedUnit :=
  let accessUses := findings.usesAt .access
  { fileName := u.fileName
    forest := u.forest
    root := u.root
    types := findings.types.foldl (fun all (id, t) => all.insert id t) ∅
    accessUses
    references := findings.usesAt .reference
    accessOrder := inSourceOrder u.forest accessUses.keys
    declared := findings.declared.toList
    diagnostics := findings.diagnostics.toList }

/-- Attributes the imports and then the declarations of a file. -/
def Setting.file (s : Setting) (root : NodeId) : Attributing Unit := do
  match s.forest.data (some root) with
  | .sourceFile file =>
    s.through (fun _ id => s.importUse id) () file.imports.toList
    -- As many levels of nesting as there are nodes, which no tree has more of.
    let inside := s.tasks s.forest.size
    s.through (fun _ id => s.declaration inside (.named s.unit.facade) id) ()
      file.declarations.toList
    -- Asked once more at the end, so that a file is not handed out after a late answer.
    let _ ← s.stopped
  | _ => return

end Attribution

/-- Attributes a file; `stops n` says whether to stop when asked for the `n`-th time. -/
def attributeUnit (env : Environment) (u : ParsedUnit) (bound : BoundUnit)
    (stops : Nat → Bool := fun _ => false) : Except AttributionError AttributedUnit :=
  let s : Setting := { forest := u.forest, env, unit := bound, stops }
  let (_, st) := (s.file u.root).run {}
  if st.isStopped then .error (.cancelled bound.fileName) else .ok (st.toFindings.unit u)

/-- Attributes files, each with what is bound at its place if that is the same file. -/
def attributeUnits (env : Environment) (units : List ParsedUnit) (bound : List BoundUnit)
    (stops : Nat → Bool := fun _ => false) : List (Except AttributionError AttributedUnit) :=
  units.zipIdx.map fun (u, i) =>
    match bound[i]? with
    | some b =>
      if b.fileName = u.fileName then attributeUnit env u b stops else .error (.unbound u.fileName)
    | none => .error (.unbound u.fileName)

namespace AttributedUnit

/-- The type of a node, unknown when nothing has been found out. -/
def typeOf (u : AttributedUnit) (id : NodeId) : Ty := (u.types[id]?).getD .unknown

def access? (u : AttributedUnit) (id : NodeId) : Option NameUse := u.accessUses[id]?

def reference? (u : AttributedUnit) (id : NodeId) : Option NameUse := u.references[id]?

/-- Accesses in the order of the source, each after what it is on. -/
def accesses (u : AttributedUnit) : List NameUse := u.accessOrder.filterMap u.access?

def accessesNamed (u : AttributedUnit) (name : String) : List NameUse :=
  u.accesses.filter fun access => access.name = name

/-- The first variable of a name. -/
def variableNamed? (u : AttributedUnit) (name : String) : Option Variable :=
  u.declared.find? fun declared => declared.name = name

/-- The text of the file. -/
def print (u : AttributedUnit) : String := u.forest.print (some u.root)

/-- The leaf that names what a node means: the name of an access, or the node itself. -/
def nameToken? (u : AttributedUnit) (id : NodeId) : Option NodeId :=
  match u.forest.kind? (some id), u.forest.data (some id) with
  | some (.node .propertyAccessExpression), .access access => access.name
  | some (.token .identifier), _ => some id
  | _, _ => none

/-- The file with another name at an access or at a name that stands alone. What is known about it
is kept. -/
def renameMember? (u : AttributedUnit) (id : NodeId) (name : String) : Option AttributedUnit :=
  (u.nameToken? id).bind fun token =>
    (u.forest.setText? (some token) name).map fun forest =>
      let rename (use : NameUse) : NameUse := { use with name := forest.nameText (some token) }
      { u with
        forest
        accessUses := u.accessUses.modify id rename
        references := u.references.modify id rename }

/-- What is met on a walk through a file. -/
inductive Visit where
  | access (access : NameUse)
  | variable (declared : Variable)
  | elvis (node : NodeId) (type : Ty)
  | call (node : NodeId) (type : Ty)
  deriving DecidableEq, Repr

/-- What is met at a node. -/
def visitsAt (u : AttributedUnit) (id : NodeId) : List Visit :=
  ((u.access? id).map Visit.access).toList ++
    ((u.declared.filter fun declared => declared.node = id).map Visit.variable) ++
    match u.forest.kind? (some id) with
    | some (.node .elvisExpression) => [.elvis id (u.typeOf id)]
    | some (.node .callExpression) => [.call id (u.typeOf id)]
    | _ => []

/-- Goes through the nodes of a tree, and meets at each what there is to meet. -/
def visiting (u : AttributedUnit) : Walk NodeId (Array Visit) where
  below id := (u.forest.children (some id)).toList
  meet met id := met ++ u.visitsAt id

/-- What is met on a walk that comes to each node before the nodes inside it. -/
def visits (u : AttributedUnit) : List Visit := (u.visiting.run [u.root] #[]).toList

end AttributedUnit

end KotlinTree
