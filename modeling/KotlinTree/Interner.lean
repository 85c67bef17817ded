import Std.Data.HashMap

/-!
A table of distinct texts. Each text has one number for as long as the table lives, and there is no largest
number.
-/

namespace KotlinTree

/-- The number of a text in a table; zero stands for the empty text. -/
structure Atom where
  index : Nat
  deriving DecidableEq, Repr, Inhabited

namespace Atom

def none : Atom := ⟨0⟩

def isNone (a : Atom) : Bool := a.index = 0

end Atom

/-- The texts in the order of their numbers, and the way back. -/
structure Interner where
  texts : Array String
  numbers : Std.HashMap String Nat

namespace Interner

/-- Texts that every table knows, in order after the empty one. -/
def common : List String :=
  ["package", "import", "class", "interface", "object", "companion", "fun", "val", "var", "this",
    "super", "null", "return", "id", "name", "value", "kotlin", "java", "Int", "Long", "String",
    "Boolean", "Any", "Unit", "Companion", "toString", "equals", "hashCode"]

def lookup? (t : Interner) (text : String) : Option Atom :=
  t.numbers[text]?.map Atom.mk

/-- The number of a text, which enters the table if it is new. -/
def intern (t : Interner) (text : String) : Atom × Interner :=
  match t.lookup? text with
  | some atom => (atom, t)
  | .none => (⟨t.texts.size⟩, ⟨t.texts.push text, t.numbers.insert text t.texts.size⟩)

/-- The text of a number, empty for one that was never given out. -/
def resolve (t : Interner) (atom : Atom) : String :=
  t.texts.getD atom.index ""

/-- The table of the empty text and the common ones. -/
def new : Interner :=
  common.foldl (fun t text => (t.intern text).2) ⟨#[""], (∅ : Std.HashMap String Nat).insert "" 0⟩

/-- Texts in the table, the empty one among them. -/
def size (t : Interner) : Nat := t.texts.size

def isEmpty (t : Interner) : Bool := t.texts.size ≤ 1

instance : Inhabited Interner := ⟨new⟩

end Interner

end KotlinTree
