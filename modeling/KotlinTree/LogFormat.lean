import KotlinTree.Text.Parts

/-!
Formats of a log. What is logged has no part in what a run yields, and is left out.
-/

namespace KotlinTree

/-- How the entries of a log are written. -/
inductive LogFormat where
  | text | tree | json
  deriving DecidableEq, Repr, Inhabited

namespace LogFormat

def name : LogFormat → String
  | .text => "Text"
  | .tree => "Tree"
  | .json => "Json"

/-- The format that a word asks for, whatever its case; plain text for any other word. -/
def parse (word : String) : LogFormat :=
  match String.ofList ((Text.trim word).toList.map Char.toLower) with
  | "tree" => .tree
  | "json" => .json
  | _ => .text

end LogFormat

end KotlinTree
