import KotlinTree.Span

/-!
Line starts of a source text. A line ends with a line feed, a carriage return, or both in that
order taken as one.
-/

namespace KotlinTree

/-- A line and a byte offset in it, both from zero. -/
structure Position where
  line : Nat
  character : Nat
  deriving DecidableEq, Repr, Inhabited

/-- The byte offsets at which lines start, in increasing order. -/
structure LineMap where
  starts : Array Nat
  deriving Inhabited

namespace LineMap

/-- Starts of the lines after the first, for a text that begins at byte `place`. -/
def startsAfter (place : Nat) : List Char → List Nat
  | [] => []
  | '\r' :: '\n' :: cs => (place + 2) :: startsAfter (place + 2) cs
  | c :: cs =>
    let next := place + c.utf8Size
    if c = '\n' ∨ c = '\r' then next :: startsAfter next cs else startsAfter next cs

def ofSource (source : String) : LineMap := ⟨(0 :: startsAfter 0 source.toList).toArray⟩

def lineCount (m : LineMap) : Nat := m.starts.size

/-- Where a place is among the starts, or where it would have to be put. -/
inductive Slot where
  | found (line : Nat)
  | missing (line : Nat)
  deriving DecidableEq, Repr

/-- Looks for a place among the starts from `low` up to, not including, `high`, half of which each
comparison leaves. -/
def searchBetween (m : LineMap) (place low high : Nat) (hhigh : high ≤ m.starts.size) : Slot :=
  if hlow : low < high then
    let middle := (low + high) / 2
    have hmiddle : middle < m.starts.size := by omega
    if m.starts[middle] = place then .found middle
    else if m.starts[middle] < place then m.searchBetween place (middle + 1) high hhigh
    else m.searchBetween place low middle (by omega)
  else .missing low
termination_by high - low

def search (m : LineMap) (place : Nat) : Slot :=
  m.searchBetween place 0 m.starts.size (Nat.le_refl _)

/-- The last line that starts at or before a place. -/
def position (m : LineMap) (place : Nat) : Position :=
  let line := match m.search place with
    | .found line => line
    | .missing next => next - 1
  ⟨line, place - m.starts.getD line 0⟩

end LineMap

end KotlinTree
