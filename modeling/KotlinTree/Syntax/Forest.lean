import KotlinTree.Syntax.Node
import KotlinTree.Text.Parts

/-!
Forests: nodes in the order of their making, children before parents. The text of a tree is what
its leaves say in order. What a node knows about its parts is kept in the node itself, and a walk keeps
what is still to be met on a stack of its own.
-/

namespace KotlinTree

/-- How to walk through something: what lies below an entry, and what is known after an entry is met. -/
structure Walk (α σ : Type) where
  below : α → List α
  meet : σ → α → σ

/-- Works a stack off, the top first: what is on top is met, and what lies below it takes its place.
There is no limit to it, as there is none to how deep a tree can be. -/
def Walk.run {α σ : Type} [Nonempty σ] (w : Walk α σ) : List α → σ → σ
  | [], met => met
  | top :: stack, met => w |>.run (w.below top ++ stack) (w.meet met top)
partial_fixpoint

/-- Nodes in the order of their making, and the names that their leaves use. -/
structure Forest where
  nodes : Array Node := #[]
  names : Interner := .new
  deriving Inhabited

namespace Forest

def size (f : Forest) : Nat := f.nodes.size

def node? (f : Forest) (id : Option NodeId) : Option Node := id.bind fun i => f.nodes[i]?

def kind? (f : Forest) (id : Option NodeId) : Option Kind := (f.node? id).map Node.kind

def data (f : Forest) (id : Option NodeId) : NodeData := ((f.node? id).map Node.data).getD .plain

def parent? (f : Forest) (id : Option NodeId) : Option NodeId := (f.node? id).bind Node.parent

def children (f : Forest) (id : Option NodeId) : Array NodeId :=
  ((f.node? id).map Node.children).getD #[]

/-- Where a node lies; the empty span at the start for no node. -/
def span (f : Forest) (id : Option NodeId) : Span := ((f.node? id).map Node.span).getD ⟨0, 0⟩

/-- A leaf for a token. It has a name if its kind can be one. -/
def addLeaf (f : Forest) (kind : TokenKind) (span : Span) (leading text value : String) :
    NodeId × Forest :=
  let (atom, names) := if kind.isName then f.names.intern value else (Atom.none, f.names)
  (f.size, ⟨f.nodes.push { kind := .token kind, span, data := .leaf ⟨leading, text, atom⟩ }, names⟩)

/-- From the first child to the last, or nothing at `place` without children. -/
def spanOver (f : Forest) (place : Nat) (children : Array NodeId) : Span :=
  match children[0]?, children.back? with
  | some first, some last =>
    ⟨((f.nodes[first]?).map (·.span.start)).getD place,
      ((f.nodes[last]?).map (·.span.stop)).getD place⟩
  | _, _ => ⟨place, place⟩

/-- A node over finished ones, which become its children. -/
def addNode (f : Forest) (kind : NodeKind) (place : Nat) (children : Array NodeId)
    (data : NodeData) : NodeId × Forest :=
  let id := f.size
  let nodes := f.nodes.push { kind := .node kind, span := f.spanOver place children, data, children }
  (id, { f with nodes :=
    children.foldl (fun nodes c => nodes.modify c fun n => { n with parent := some id }) nodes })

/-- Changes one node, if it is there. -/
def modify (f : Forest) (id : NodeId) (change : Node → Node) : Forest :=
  { f with nodes := f.nodes.modify id change }

/-- The leaf that a node is. -/
def leaf? (f : Forest) (id : Option NodeId) : Option Leaf :=
  match f.data id with
  | .leaf leaf => some leaf
  | _ => none

/-- The text of a leaf, empty for anything else. -/
def leafText (f : Forest) (id : Option NodeId) : String := ((f.leaf? id).map Leaf.text).getD ""

def nameAtom (f : Forest) (id : Option NodeId) : Atom := ((f.leaf? id).map Leaf.atom).getD .none

/-- The name that a leaf stands for, empty for anything else. -/
def nameText (f : Forest) (id : Option NodeId) : String := f.names.resolve (f.nameAtom id)

/-- The leaf at the front of a tree. Children come before their parents. -/
def firstLeaf? (f : Forest) (id : NodeId) : Option NodeId :=
  match f.nodes[id]? with
  | none => none
  | some node =>
    match node.kind with
    | .token _ => some id
    | .node _ =>
      match node.children[0]? with
      | some child => if _ : child < id then f.firstLeaf? child else none
      | none => none
termination_by id

/-- The trivia before a tree. -/
def leading (f : Forest) (id : Option NodeId) : String :=
  ((f.leaf? (id.bind f.firstLeaf?)).map Leaf.leading).getD ""

/-- Replaces the text of a leaf and the name it stands for, or says that it is no leaf. -/
def setText? (f : Forest) (id : Option NodeId) (text : String) : Option Forest :=
  match id, f.leaf? id with
  | some i, some leaf =>
    let (atom, names) := f.names.intern (String.ofList (Text.trimBy (· = '`') text.toList))
    some <| { f with names : Forest }.modify i fun node =>
      { node with data := .leaf ⟨leaf.leading, text, atom⟩, isRewritten := true }
  | _, _ => none

/-- Goes through the leaves of a tree in order and says each with the trivia before it. What a leaf holds is
not looked into, and a node that is not there says nothing. -/
def printing (f : Forest) : Walk NodeId String where
  below i := if (f.leaf? (some i)).isSome then [] else (f.children (some i)).toList
  meet said i := said ++ ((f.leaf? (some i)).map Leaf.written).getD ""

/-- The text of a tree, empty for no node. -/
def print (f : Forest) (id : Option NodeId) : String := f.printing.run id.toList ""

end Forest

end KotlinTree
