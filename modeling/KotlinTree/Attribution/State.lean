import Std.Data.HashMap
import KotlinTree.Attribution.Findings
import KotlinTree.Binding.Unit

/-!
Where attribution stands in a file: what surrounds the current place, and what has been found out
so far. Whoever wants attribution to stop may say so at any time, so the answers to being asked are a
sequence about which nothing is known.
-/

namespace KotlinTree.Attribution

/-- Nesting of expressions past which they get no type. -/
def maxDepth : Nat := 500

/-- What the attribution of a file reads and never changes. -/
structure Setting where
  forest : Forest
  env : Environment
  unit : BoundUnit
  /-- What the caller says when it is asked for the `n`-th time whether to stop. -/
  stops : Nat → Bool := fun _ => false

/-- An implicit receiver: an enclosing class, or what an extension is applied to. -/
structure Frame where
  type : Ty
  /-- The name by which `this` can ask for it. -/
  label : Option String
  /-- A class has a superclass; the receiver of an extension has none. -/
  isClass : Bool
  superclass : Ty
  /-- The objects of the classes around it are out of reach. -/
  hidesOuter : Bool
  deriving DecidableEq, Repr, Inhabited

/-- Names that a block declares, the latest first. -/
structure LocalScope where
  /-- Variables and parameters by name to their types. -/
  values : List (String × Ty) := []
  /-- Functions by name to what they return. -/
  functions : List (String × Ty) := []
  deriving DecidableEq, Repr, Inhabited

structure State extends Findings where
  /-- Local scopes, the innermost first. -/
  scopes : List LocalScope := []
  /-- Implicit receivers, the innermost first. -/
  frames : List Frame := []
  /-- Names of the classes around the current place, the outermost first. -/
  enclosing : List String := []
  typeParameters : List String := []
  /-- Types of members that were unknown until their declarations were attributed, by owner and
  name. -/
  inferred : Std.HashMap (String × String) Ty := ∅
  depth : Nat := 0
  /-- How often the caller has been asked whether to stop. -/
  polls : Nat := 0
  isStopped : Bool := false
  deriving Inhabited

abbrev Attributing := StateM State

def recordType (id : NodeId) (t : Ty) : Attributing Unit :=
  modify fun st => { st with types := st.types.push (id, t) }

def recordUse (place : Place) (name : NameUse) : Attributing Unit :=
  modify fun st => { st with uses := st.uses.push (place, name) }

def recordVariable (v : Variable) : Attributing Unit :=
  modify fun st => { st with declared := st.declared.push v }

/-- Reports a failure at a node. -/
def Setting.report (s : Setting) (id : Option NodeId) (failure : Failure) : Attributing Unit :=
  modify fun st => { st with
    diagnostics := st.diagnostics.push (failure.diagnostic s.unit.fileName (s.forest.span id)) }

/-- Asks whether to stop. An answer that says so is final. -/
def Setting.stopped (s : Setting) : Attributing Bool :=
  modifyGet fun st =>
    -- It is not asked again after such an answer, so the answers that follow do not matter.
    if st.isStopped then (true, st)
    else (s.stops st.polls, { st with polls := st.polls + 1, isStopped := s.stops st.polls })

/-- Goes through nodes in order, up to the one before which it is told to stop. -/
def Setting.through {α : Type} (s : Setting) (step : α → NodeId → Attributing α) :
    α → List NodeId → Attributing α
  | a, [] => pure a
  | a, id :: ids => do
    if ← s.stopped then return a
    else s.through step (← step a id) ids

/-- One level of expressions deeper, or nothing of it when that is too deep. -/
def deeper {α : Type} (otherwise : α) (p : Attributing α) : Attributing α := do
  -- The depth counts expressions only, and is given back when this one is done.
  if (← get).depth ≥ maxDepth then return otherwise
  else
    modify fun st => { st with depth := st.depth + 1 }
    let a ← p
    modify fun st => { st with depth := st.depth - 1 }
    return a

def pushScope (scope : LocalScope := {}) : Attributing Unit :=
  modify fun st => { st with scopes := scope :: st.scopes }

/-- Leaves the innermost scope and yields it. -/
def popScope : Attributing LocalScope :=
  modifyGet fun st => (st.scopes.headD {}, { st with scopes := st.scopes.tail })

def pushFrame (frame : Frame) : Attributing Unit :=
  modify fun st => { st with frames := frame :: st.frames }

def popFrame : Attributing Unit :=
  modify fun st => { st with frames := st.frames.tail }

/-- Inside a scope of its own. -/
def inScope {α : Type} (p : Attributing α) (scope : LocalScope := {}) : Attributing α := do
  pushScope scope
  let a ← p
  let _ ← popScope
  return a

/-- With an implicit receiver, if there is one. -/
def inFrame {α : Type} (frame : Option Frame) (p : Attributing α) : Attributing α := do
  match frame with
  | none => p
  | some frame =>
    pushFrame frame
    let a ← p
    popFrame
    return a

/-- Inside a class, if it has a name that is known elsewhere. -/
def inClass {α : Type} (name : Option String) (p : Attributing α) : Attributing α := do
  modify fun st => { st with enclosing := st.enclosing ++ name.toList }
  let a ← p
  if name.isSome then modify fun st => { st with enclosing := st.enclosing.dropLast }
  return a

/-- With more type parameters in scope. -/
def withTypeParameters {α : Type} (names : List String) (p : Attributing α) : Attributing α := do
  -- The number is enough: whatever is put on top is taken off again before.
  let saved := (← get).typeParameters.length
  modify fun st => { st with typeParameters := st.typeParameters ++ names }
  let a ← p
  modify fun st => { st with typeParameters := st.typeParameters.take saved }
  return a

/-- Declares something in the innermost scope, if there is a scope. -/
def declare (f : LocalScope → LocalScope) : Attributing Unit :=
  modify fun st =>
    match st.scopes with
    | scope :: scopes => { st with scopes := f scope :: scopes }
    | [] => st

def declareLocal (name : String) (t : Ty) : Attributing Unit :=
  -- A name that is missing in the source is no name to be found later.
  if name = "" then return
  else declare fun scope => { scope with values := (name, t) :: scope.values }

def declareLocalFunction (name : String) (result : Ty) : Attributing Unit :=
  declare fun scope => { scope with functions := (name, result) :: scope.functions }

/-- What a member turns out to be, where its declaration does not say. -/
def learn (owner name : String) (t : Ty) : Attributing Unit :=
  modify fun st => { st with inferred := st.inferred.insert (owner, name) t }

namespace State

/-- The innermost local variable of a name. -/
def local? (st : State) (name : String) : Option Ty :=
  st.scopes.findSome? fun scope => scope.values.lookup name

/-- What the innermost local function of a name returns. -/
def localFunction? (st : State) (name : String) : Option Ty :=
  st.scopes.findSome? fun scope => scope.functions.lookup name

/-- The innermost receiver, or the innermost of a label; only classes when `isClass`. -/
def frame? (st : State) (label : Option String) (isClass : Bool) : Option Frame :=
  st.frames.find? fun frame =>
    (!isClass || frame.isClass) && (label.isNone || frame.label = label)

end State

end KotlinTree.Attribution
