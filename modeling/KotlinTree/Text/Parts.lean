
/-!
White space by the Unicode property `White_Space`, text without it at both ends, parts of a text between
separators, and its lines for display.
-/

namespace KotlinTree.Text

/-- The property `White_Space`. -/
def isBlank (c : Char) : Bool :=
  let n := c.toNat
  (0x9 ≤ n && n ≤ 0xD) || n = 0x20 || n = 0x85 || n = 0xA0 || n = 0x1680 ||
    (0x2000 ≤ n && n ≤ 0x200A) || n = 0x2028 || n = 0x2029 || n = 0x202F || n = 0x205F ||
    n = 0x3000

/-- The list without the leading and trailing members that satisfy `p`. -/
def trimBy {α : Type} (p : α → Bool) (xs : List α) : List α :=
  ((xs.dropWhile p).reverse.dropWhile p).reverse

/-- The text without white space at its ends. -/
def trim (s : String) : String :=
  String.ofList (trimBy isBlank s.toList)

/-- The parts of a list between members that satisfy `p`; one more than there are of these. -/
def partsBy {α : Type} (p : α → Bool) : List α → List (List α)
  | [] => [[]]
  | x :: xs =>
    if p x then [] :: partsBy p xs
    else match partsBy p xs with
      | part :: parts => (x :: part) :: parts
      | [] => [[x]]

/-- The parts of a text between separators. -/
def parts (isSeparator : Char → Bool) (s : String) : List String :=
  (partsBy isSeparator s.toList).map String.ofList

/-- The text after the last separator, all of it when there is none. -/
def afterLast (isSeparator : Char → Bool) (s : String) : String :=
  String.ofList ((s.toList.reverse.takeWhile fun c => !isSeparator c).reverse)

/-- The text before the first separator, all of it when there is none. -/
def beforeFirst (isSeparator : Char → Bool) (s : String) : String :=
  String.ofList (s.toList.takeWhile fun c => !isSeparator c)

/-- The text before the last separator, if there is one. -/
def beforeLast? (isSeparator : Char → Bool) (s : String) : Option String :=
  match s.toList.reverse.dropWhile fun c => !isSeparator c with
  | [] => none
  | _ :: front => some (String.ofList front.reverse)

/-- The text without a character at its end, if it ends so. -/
def dropLast? (c : Char) (s : String) : Option String :=
  match s.toList.reverse with
  | d :: front => if d = c then some (String.ofList front.reverse) else none
  | [] => none

/-- A line that a line feed ends, without the carriage return in front of it. -/
def dropReturn (line : List Char) : List Char :=
  match line.reverse with
  | '\r' :: front => front.reverse
  | _ => line

/-- The lines of a text: each line feed ends one, and what follows the last is one if it is not
empty. -/
def lines (s : String) : List String :=
  match (partsBy (· = '\n') s.toList).reverse with
  | [] => []
  | last :: ended =>
    let whole := ended.reverse.map fun line => String.ofList (dropReturn line)
    if last = [] then whole else whole ++ [String.ofList last]

end KotlinTree.Text
