import KotlinTree.Syntax.Forest
import KotlinTree.Text.Printable

/-!
A tree as indented lines, one for each node.
-/

namespace KotlinTree.Forest

/-- Two blanks for each level. -/
def indent (depth : Nat) : String := String.ofList (List.replicate (2 * depth) ' ')

/-- The line of a node: kind and text of a leaf, kind and span of an inner node. -/
def listingLine (node : Node) : String :=
  match node.kind, node.data with
  | .token kind, .leaf leaf => Text.quoted kind.name ++ " " ++ Text.quoted leaf.text
  | kind, _ =>
    kind.name ++ " [" ++ Nat.repr node.span.start ++ ".." ++ Nat.repr node.span.stop ++ ")"

/-- Goes through the nodes of a tree with the depth of each, and writes a line for each node that is there. -/
def listed (f : Forest) : Walk (NodeId × Nat) (Array String) where
  below top :=
    if (f.leaf? (some top.1)).isSome then []
    else (f.children (some top.1)).toList.map fun child => (child, top.2 + 1)
  meet lines top :=
    match f.nodes[top.1]? with
    | none => lines
    | some node => lines.push (indent top.2 ++ listingLine node)

/-- The lines of a tree at a depth, a node before its children. -/
def listing (f : Forest) (depth : Nat) (id : NodeId) : List String :=
  (f.listed.run [(id, depth)] #[]).toList

end KotlinTree.Forest
