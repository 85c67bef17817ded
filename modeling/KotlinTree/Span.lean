
/-!
Offsets in UTF-8 bytes, and half-open stretches of a source text. A text is a list of characters; a place
in it is the number of bytes before it, so only some numbers are places. Numbers are not bounded here, so
no text is too long.
-/

namespace KotlinTree.Text

/-- Bytes that a text takes in UTF-8. -/
def byteSize : List Char → Nat
  | [] => 0
  | c :: cs => c.utf8Size + byteSize cs

/-- What follows the first `n` bytes, when they end between two characters. -/
def dropBytes? : List Char → Nat → Option (List Char)
  | cs, 0 => some cs
  | [], _ + 1 => none
  | c :: cs, n + 1 =>
    if c.utf8Size ≤ n + 1 then dropBytes? cs (n + 1 - c.utf8Size) else none

/-- The first `n` bytes, when they end between two characters. -/
def takeBytes? : List Char → Nat → Option (List Char)
  | _, 0 => some []
  | [], _ + 1 => none
  | c :: cs, n + 1 =>
    if c.utf8Size ≤ n + 1 then (takeBytes? cs (n + 1 - c.utf8Size)).map (c :: ·) else none

/-- The text between two places, in order. -/
def slice? (cs : List Char) (start stop : Nat) : Option (List Char) :=
  if start ≤ stop then (dropBytes? cs start).bind (takeBytes? · (stop - start)) else none

theorem byteSize_cons (c : Char) (cs : List Char) : byteSize (c :: cs) = c.utf8Size + byteSize cs :=
  rfl

/-- Two characters of one byte each. -/
theorem byteSize_pair {c d : Char} (hc : c.utf8Size = 1) (hd : d.utf8Size = 1) (place : Nat)
    (cs : List Char) : place + byteSize (c :: d :: cs) = place + 2 + byteSize cs := by
  rw [byteSize_cons, byteSize_cons, hc, hd]
  omega

theorem byteSize_eq_zero {cs : List Char} (h : byteSize cs = 0) : cs = [] := by
  cases cs with
  | nil => rfl
  | cons c cs =>
    have hpos := c.utf8Size_pos
    rw [byteSize_cons] at h
    omega

@[simp] theorem byteSize_append (a b : List Char) : byteSize (a ++ b) = byteSize a + byteSize b := by
  induction a with
  | nil => simp [byteSize]
  | cons c cs ih => simp only [List.cons_append, byteSize, ih]; omega

/-- Dropping a prefix by its size leaves the rest. -/
theorem dropBytes?_append (a b : List Char) : dropBytes? (a ++ b) (byteSize a) = some b := by
  induction a with
  | nil => simp [byteSize, dropBytes?]
  | cons c cs ih =>
    have hc := c.utf8Size_pos
    obtain ⟨n, hn⟩ : ∃ n, byteSize (c :: cs) = n + 1 := ⟨byteSize (c :: cs) - 1, by simp [byteSize]; omega⟩
    have hle : c.utf8Size ≤ n + 1 := by simp [byteSize] at hn; omega
    have hsub : n + 1 - c.utf8Size = byteSize cs := by simp [byteSize] at hn; omega
    rw [hn, List.cons_append, dropBytes?, if_pos hle, hsub, ih]

theorem takeBytes?_append (a b : List Char) : takeBytes? (a ++ b) (byteSize a) = some a := by
  induction a with
  | nil => simp [byteSize, takeBytes?]
  | cons c cs ih =>
    have hpos := c.utf8Size_pos
    have hsize := byteSize_cons c cs
    obtain ⟨n, hn⟩ : ∃ n, byteSize (c :: cs) = n + 1 := ⟨byteSize (c :: cs) - 1, by omega⟩
    have hle : c.utf8Size ≤ n + 1 := by omega
    have hrest : n + 1 - c.utf8Size = byteSize cs := by omega
    rw [hn, List.cons_append, takeBytes?, if_pos hle, hrest, ih, Option.map_some]

/-- A part of a text lies between its own places. -/
theorem slice?_append (front part back : List Char) :
    slice? (front ++ part ++ back) (byteSize front) (byteSize front + byteSize part) = some part := by
  unfold slice?
  rw [if_pos (Nat.le_add_right _ _), List.append_assoc, dropBytes?_append, Option.bind_some,
    Nat.add_sub_cancel_left, takeBytes?_append]

theorem byteSize_toList (s : String) : byteSize s.toList = s.utf8ByteSize := by
  have hlist (cs : List Char) : byteSize cs = (String.ofList cs).utf8ByteSize := by
    induction cs with
    | nil => rfl
    | cons c cs ih =>
      rw [String.ofList_cons, String.utf8ByteSize_append, String.utf8ByteSize_singleton, byteSize, ih]
  rw [hlist, String.ofList_toList]

end KotlinTree.Text

namespace KotlinTree

/-- The bytes from `start` up to, not including, `stop`. -/
structure Span where
  start : Nat
  stop : Nat
  deriving DecidableEq, Repr, Inhabited

namespace Span

/-- Nothing is between the ends when they are out of order. -/
def size (s : Span) : Nat := s.stop - s.start

def isEmpty (s : Span) : Bool := s.stop ≤ s.start

/-- The least stretch that holds both. -/
def merge (a b : Span) : Span := ⟨min a.start b.start, max a.stop b.stop⟩

def contains (s : Span) (place : Nat) : Bool := s.start ≤ place && place < s.stop

/-- The text of the span, empty when an end is no place in the source. -/
def text (s : Span) (source : String) : String :=
  String.ofList ((Text.slice? source.toList s.start s.stop).getD [])

end Span

end KotlinTree
