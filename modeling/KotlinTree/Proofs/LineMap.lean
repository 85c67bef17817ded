import Mathlib.Data.Prod.Lex
import KotlinTree.LineMap

/-!
Where the lines of a source start, and on which line a place is. Main statement: the starts are the first
place of the source and the places after the ends of its lines, in increasing order, and the position of
a place is the last line that starts at or before it and the bytes from there on (`ofSource_locates`).
-/

namespace KotlinTree.LineMap

open Text

/-- A line ends between two parts of a text: after a line feed, and after a carriage return unless a line
feed follows, which then ends the line together with it. -/
def EndsLine (front back : List Char) : Prop :=
  ['\n'] <:+ front ∨ ['\r'] <:+ front ∧ ¬ ['\n'] <+: back

/-- A line starts at a place: the first one, or one after the end of another line. -/
def StartsLine (source : String) (place : Nat) : Prop :=
  place = 0 ∨ ∃ front back, front ++ back = source.toList ∧ byteSize front = place ∧ EndsLine front back

/-- Before the start of a line is the end of another one, or nothing. -/
theorem StartsLine.exists_front {source : String} {place : Nat} (h : StartsLine source place) :
    ∃ front back, front ++ back = source.toList ∧ byteSize front = place ∧
      (front = [] ∨ EndsLine front back) := by
  rcases h with rfl | ⟨front, back, htext, hsize, hends⟩
  · exact ⟨[], source.toList, rfl, rfl, Or.inl rfl⟩
  · exact ⟨front, back, htext, hsize, Or.inr hends⟩

theorem not_endsLine_nil (back : List Char) : ¬ EndsLine [] back := by
  simp [EndsLine]

/-- The first character of the front matters only if it is the last as well. -/
theorem endsLine_cons_iff {c : Char} {front back : List Char} (hne : front ≠ []) :
    EndsLine (c :: front) back ↔ EndsLine front back := by
  simp [EndsLine, List.suffix_cons_iff, Ne.symm hne]

theorem endsLine_singleton_iff {c : Char} {back : List Char} :
    EndsLine [c] back ↔ c = '\n' ∨ c = '\r' ∧ ¬ ['\n'] <+: back := by
  simp [EndsLine, List.suffix_cons_iff, eq_comm]

theorem lt_of_mem_startsAfter {place start : Nat} {cs : List Char} (h : start ∈ startsAfter place cs) :
    place < start := by
  fun_induction startsAfter place cs with
  | case1 => exact absurd h List.not_mem_nil
  | case2 place cs ih =>
    rcases List.mem_cons.mp h with rfl | h
    · omega
    · have hlt := ih h
      omega
  | case3 place c cs _ next _ ih =>
    have hpos := c.utf8Size_pos
    rcases List.mem_cons.mp h with rfl | h
    · omega
    · have hlt := ih h
      omega
  | case4 place c cs _ next _ ih =>
    have hlt := ih h
    omega

theorem startsAfter_increasing (place : Nat) (cs : List Char) :
    (startsAfter place cs).Pairwise (· < ·) := by
  fun_induction startsAfter place cs with
  | case1 => exact List.Pairwise.nil
  | case2 place cs ih | case3 place c cs _ next _ ih =>
    apply List.Pairwise.cons _ ih
    intro start hstart
    exact lt_of_mem_startsAfter hstart
  | case4 place c cs _ next _ ih => exact ih

/-- A line ends in a text after its first character, or in what follows. -/
theorem exists_endsLine_cons_iff {place start : Nat} {c : Char} {cs : List Char} :
    (∃ front back, front ++ back = c :: cs ∧ place + byteSize front = start ∧ EndsLine front back) ↔
      start = place + c.utf8Size ∧ EndsLine [c] cs ∨
        ∃ front back, front ++ back = cs ∧ place + c.utf8Size + byteSize front = start ∧
          EndsLine front back := by
  constructor
  · rintro ⟨front, back, htext, hstart, hends⟩
    cases front with
    | nil => exact absurd hends (not_endsLine_nil back)
    | cons d front =>
      obtain ⟨rfl, rfl⟩ := List.cons.inj htext
      have hsize := byteSize_cons d front
      -- The line ends with the first character or later.
      by_cases hne : front = []
      · subst hne
        apply Or.inl
        exact ⟨hstart.symm, hends⟩
      · apply Or.inr
        exact ⟨front, back, rfl, by omega, (endsLine_cons_iff hne).mp hends⟩
  · rintro (⟨rfl, hends⟩ | ⟨front, back, rfl, rfl, hends⟩)
    · exact ⟨[c], cs, rfl, rfl, hends⟩
    · have hne : front ≠ [] := by
        rintro rfl
        exact not_endsLine_nil back hends
      have hsize := byteSize_cons c front
      exact ⟨c :: front, back, rfl, by omega, (endsLine_cons_iff hne).mpr hends⟩

/-- Every start after the first has the end of a line before it, and every end of a line a start after
it. -/
theorem mem_startsAfter_iff {place start : Nat} {cs : List Char} :
    start ∈ startsAfter place cs ↔
      ∃ front back, front ++ back = cs ∧ place + byteSize front = start ∧ EndsLine front back := by
  fun_induction startsAfter place cs with
  | case1 place =>
    have hnone : ∀ front back, front ++ back = [] → ¬ EndsLine front back := by
      intro front back htext
      rw [(List.append_eq_nil_iff.mp htext).1]
      exact not_endsLine_nil back
    constructor
    · intro h
      exact absurd h List.not_mem_nil
    · rintro ⟨front, back, htext, -, hends⟩
      exact absurd hends (hnone front back htext)
  | case2 place cs ih =>
    -- The carriage return alone ends nothing, since a line feed follows it.
    have hreturn : ¬ EndsLine ['\r'] ('\n' :: cs) := by
      simp [endsLine_singleton_iff]
    have hfeed : EndsLine ['\n'] cs := endsLine_singleton_iff.mpr (Or.inl rfl)
    have hsize : place + '\r'.utf8Size + '\n'.utf8Size = place + 2 := rfl
    rw [List.mem_cons, ih, exists_endsLine_cons_iff, exists_endsLine_cons_iff, hsize]
    simp only [hreturn, hfeed, and_false, and_true, false_or]
  | case3 place c cs hcrlf next hc ih =>
    have hends : EndsLine [c] cs := by
      rw [endsLine_singleton_iff]
      rcases hc with rfl | rfl
      · exact Or.inl rfl
      · apply Or.inr
        refine ⟨rfl, ?_⟩
        rintro ⟨rest, rfl⟩
        exact hcrlf rest rfl rfl
    rw [List.mem_cons, ih, exists_endsLine_cons_iff]
    simp only [hends, and_true, next]
  | case4 place c cs hcrlf next hc ih =>
    have hends : ¬ EndsLine [c] cs := by
      rw [endsLine_singleton_iff]
      rintro (rfl | ⟨rfl, -⟩)
      · exact hc (Or.inl rfl)
      · exact hc (Or.inr rfl)
    rw [ih, exists_endsLine_cons_iff]
    simp only [hends, and_false, false_or, next]

/-- What a search may answer: where the number is, or how many of the starts are below it. -/
def Slot.IsRight (m : LineMap) (place : Nat) : Slot → Prop
  | .found line => ∃ h : line < m.starts.size, m.starts[line] = place
  | .missing line => line ≤ m.starts.size ∧
      ∀ j (h : j < m.starts.size), (m.starts[j] < place ↔ j < line) ∧ m.starts[j] ≠ place

/-- The starts of a map are in increasing order. -/
def Increasing (m : LineMap) : Prop :=
  ∀ i j (hi : i < m.starts.size) (hj : j < m.starts.size), i < j → m.starts[i] < m.starts[j]

variable {m : LineMap} {place : Nat}

/-- The starts before the part that is searched are below the place, those after it are above. Each
comparison keeps it so. -/
theorem searchBetween_isRight (hm : m.Increasing) (low high : Nat) (hhigh : high ≤ m.starts.size)
    (hbelow : ∀ j (h : j < m.starts.size), j < low → m.starts[j] < place)
    (habove : ∀ j (h : j < m.starts.size), high ≤ j → place < m.starts[j]) (hle : low ≤ high) :
    (m.searchBetween place low high hhigh).IsRight m place := by
  -- The place lies between two bounds that come closer in every round.
  fun_induction searchBetween m place low high hhigh with
  | case1 low high hhigh hlow middle hmiddle heq => exact ⟨hmiddle, heq⟩
  | case2 low high hhigh hlow middle hmiddle hne hlt ih =>
    apply ih
    · intro j hj hjmiddle
      rcases Nat.lt_succ_iff_lt_or_eq.mp hjmiddle with hless | rfl
      · exact (hm j middle hj hmiddle hless).trans hlt
      · exact hlt
    · exact habove
    · omega
  | case3 low high hhigh hlow middle hmiddle hne hge ih =>
    have hgt : place < m.starts[middle] := by omega
    apply ih
    · exact hbelow
    · intro j hj hmiddlej
      rcases Nat.lt_or_eq_of_le hmiddlej with hless | rfl
      · exact hgt.trans (hm middle j hmiddle hj hless)
      · exact hgt
    · omega
  -- The bounds have met, so every start is on one side of the place or on the other.
  | case4 low high hhigh hlow =>
    refine ⟨by omega, ?_⟩
    intro j hj
    rcases Nat.lt_or_ge j low with hjlow | hjlow
    · have hless := hbelow j hj hjlow
      omega
    · have hmore := habove j hj (by omega)
      omega

theorem search_isRight (hm : m.Increasing) (place : Nat) : (m.search place).IsRight m place := by
  apply searchBetween_isRight hm
  · intro j _ hj
    exact absurd hj (Nat.not_lt_zero j)
  · intro j hj hsize
    exact absurd hj (Nat.not_lt.mpr hsize)
  · exact Nat.zero_le _

theorem Increasing.le_iff (hm : m.Increasing) {i j : Nat} (hi : i < m.starts.size)
    (hj : j < m.starts.size) : m.starts[i] ≤ m.starts[j] ↔ i ≤ j := by
  rcases Nat.lt_trichotomy i j with hlt | rfl | hgt
  · have hless := hm i j hi hj hlt
    omega
  · omega
  · have hmore := hm j i hj hi hgt
    omega

/-- How many starts are at or before the place that a search answered. -/
def Slot.count : Slot → Nat
  | .found line => line + 1
  | .missing line => line

theorem Slot.IsRight.le_iff {slot : Slot} (h : slot.IsRight m place) (hm : m.Increasing) :
    slot.count ≤ m.starts.size ∧
      ∀ j (hj : j < m.starts.size), m.starts[j] ≤ place ↔ j < slot.count := by
  cases slot with
  | found line =>
    obtain ⟨hline, rfl⟩ := h
    refine ⟨hline, ?_⟩
    intro j hj
    rw [hm.le_iff hj hline]
    exact Nat.lt_succ_iff.symm
  | missing line =>
    obtain ⟨hline, hall⟩ := h
    refine ⟨hline, ?_⟩
    intro j hj
    have hsplit := hall j hj
    change m.starts[j] ≤ place ↔ j < line
    omega

/-- The starts at or before a place are the first ones, as many as there are. -/
theorem countP_starts_eq {count : Nat} (hle : count ≤ m.starts.size)
    (hcount : ∀ j (hj : j < m.starts.size), m.starts[j] ≤ place ↔ j < count) :
    m.starts.countP (· ≤ place) = count := by
  -- The starts up to the place come first, so they are counted and the others are not.
  have hsplit : m.starts.toList.countP (· ≤ place) =
      (m.starts.toList.take count).countP (· ≤ place) +
        (m.starts.toList.drop count).countP (· ≤ place) := by
    rw [← List.countP_append, List.take_append_drop]
  have hfirst : (m.starts.toList.take count).countP (· ≤ place) = count := by
    have hlength : (m.starts.toList.take count).length = count := by
      rw [List.length_take, Array.length_toList]
      omega
    rw [List.countP_eq_length.mpr _, hlength]
    intro start hstart
    obtain ⟨j, hj, rfl⟩ := List.mem_take_iff_getElem.mp hstart
    rw [Array.length_toList] at hj
    rw [decide_eq_true_iff, Array.getElem_toList]
    exact (hcount j (by omega)).mpr (by omega)
  have hrest : (m.starts.toList.drop count).countP (· ≤ place) = 0 := by
    rw [List.countP_eq_zero]
    intro start hstart
    obtain ⟨j, hj, rfl⟩ := List.mem_drop_iff_getElem.mp hstart
    rw [Array.length_toList] at hj
    rw [decide_eq_true_iff, Array.getElem_toList, hcount _ (by omega)]
    omega
  rw [← Array.countP_toList, hsplit, hfirst, hrest, Nat.add_zero]

/-- The number of a line is the number of starts before its own. -/
theorem countP_getElem (hm : m.Increasing) {number : Nat} (h : number < m.starts.size) :
    m.starts.countP (· ≤ m.starts[number]) = number + 1 := by
  apply countP_starts_eq h
  intro j hj
  rw [hm.le_iff hj h]
  exact Nat.lt_succ_iff.symm

theorem countP_starts_search (hm : m.Increasing) (place : Nat) :
    m.starts.countP (· ≤ place) = (m.search place).count := by
  have hcount := (search_isRight hm place).le_iff hm
  exact countP_starts_eq hcount.1 hcount.2

/-- The starts at or before a place are as many as come before the next line. -/
theorem le_iff_lt_countP (hm : m.Increasing) {j : Nat} (hj : j < m.starts.size) :
    m.starts[j] ≤ place ↔ j < m.starts.countP (· ≤ place) := by
  rw [countP_starts_search hm]
  exact ((search_isRight hm place).le_iff hm).2 j hj

/-- The line of a place is the last of those that start at or before it. -/
theorem line_position (hm : m.Increasing) (place : Nat) :
    (m.position place).line = m.starts.countP (· ≤ place) - 1 := by
  rw [countP_starts_search hm]
  unfold position
  cases m.search place with
  | found line => rfl
  | missing line => rfl

/-- A place is on a line that starts at or before it, at the number of bytes from there on. -/
theorem exists_start (hm : m.Increasing) (hfirst : m.starts[0]? = some 0) (place : Nat) :
    ∃ start, m.starts[(m.position place).line]? = some start ∧ start ≤ place ∧
      (m.position place).character = place - start := by
  obtain ⟨hzero, hstart⟩ := Array.getElem?_eq_some_iff.mp hfirst
  have hpos : 0 < m.starts.countP (· ≤ place) := by
    rw [← le_iff_lt_countP hm hzero, hstart]
    exact Nat.zero_le place
  have hsize : m.starts.countP (· ≤ place) ≤ m.starts.size := Array.countP_le_size
  have hline := line_position hm place
  have hlt : (m.position place).line < m.starts.size := by omega
  have hget := Array.getElem?_eq_getElem hlt
  refine ⟨m.starts[(m.position place).line], hget, ?_, ?_⟩
  · rw [le_iff_lt_countP hm hlt]
    omega
  · calc (m.position place).character
        = place - m.starts.getD (m.position place).line 0 := rfl
      _ = place - m.starts[(m.position place).line] := by
        rw [Array.getD_eq_getD_getElem?, hget, Option.getD_some]

/-- A place further on has a later line, or is further on in the same line. -/
theorem position_strictMono (hm : m.Increasing) (hfirst : m.starts[0]? = some 0) :
    StrictMono fun place => toLex ((m.position place).line, (m.position place).character) := by
  intro place next hlt
  obtain ⟨start, hget, hle, hcharacter⟩ := exists_start hm hfirst place
  obtain ⟨start', hget', -, hcharacter'⟩ := exists_start hm hfirst next
  have hcount : m.starts.countP (· ≤ place) ≤ m.starts.countP (· ≤ next) := by
    rw [← Array.countP_toList, ← Array.countP_toList]
    apply List.countP_mono_left
    intro start _ hstart
    rw [decide_eq_true_iff] at hstart ⊢
    omega
  have hline : (m.position place).line ≤ (m.position next).line := by
    rw [line_position hm, line_position hm]
    omega
  rw [Prod.Lex.toLex_lt_toLex]
  -- On a later line, or on the same line and further on.
  rcases Nat.lt_or_eq_of_le hline with hless | hsame
  · exact Or.inl hless
  · apply Or.inr
    refine ⟨hsame, ?_⟩
    have hstart : start = start' := by
      rw [hsame, hget'] at hget
      exact (Option.some.inj hget).symm
    change (m.position place).character < (m.position next).character
    omega

/-- What a map tells of a source. -/
structure Locates (source : String) (m : LineMap) : Prop where
  /-- The starts begin with that of the source. -/
  first : m.starts[0]? = some 0
  increasing : m.starts.toList.Pairwise (· < ·)
  /-- Lines start where they should, and nowhere else. -/
  mem_starts : ∀ place, place ∈ m.starts ↔ StartsLine source place
  /-- The line of any place, also of one after the source, is the last that starts at or before it. -/
  position : ∀ place, ∃ start, m.starts[m.starts.countP (· ≤ place) - 1]? = some start ∧
    start ≤ place ∧ m.position place = ⟨m.starts.countP (· ≤ place) - 1, place - start⟩
  /-- The start of the line and the bytes in it give the place back. -/
  recovered : ∀ place, m.starts.getD (m.position place).line 0 + (m.position place).character = place
  monotone : StrictMono fun place => toLex ((m.position place).line, (m.position place).character)

theorem toList_starts_ofSource (source : String) :
    (ofSource source).starts.toList = 0 :: startsAfter 0 source.toList := rfl

theorem ofSource_pairwise (source : String) :
    (ofSource source).starts.toList.Pairwise (· < ·) := by
  rw [toList_starts_ofSource]
  apply List.Pairwise.cons
  · intro start hstart
    exact lt_of_mem_startsAfter hstart
  · exact startsAfter_increasing 0 source.toList

theorem ofSource_increasing (source : String) : (ofSource source).Increasing := by
  intro i j hi hj hlt
  exact List.pairwise_iff_getElem.mp (ofSource_pairwise source) i j hi hj hlt

theorem mem_starts_ofSource_iff {source : String} {place : Nat} :
    place ∈ (ofSource source).starts ↔ StartsLine source place := by
  rw [← Array.mem_toList_iff, toList_starts_ofSource, List.mem_cons, mem_startsAfter_iff]
  simp only [StartsLine, Nat.zero_add]

/-- The lines of a source start at its first place and after the ends of lines, and every place is found
on the last line that starts at or before it. -/
theorem ofSource_locates (source : String) : Locates source (ofSource source) := by
  have hm := ofSource_increasing source
  have hfirst : (ofSource source).starts[0]? = some 0 := rfl
  exact {
    first := hfirst
    increasing := ofSource_pairwise source
    mem_starts := fun place => mem_starts_ofSource_iff
    position := by
      intro place
      obtain ⟨start, hget, hle, hcharacter⟩ := exists_start hm hfirst place
      rw [← line_position hm]
      exact ⟨start, hget, hle, by rw [← hcharacter]⟩
    recovered := by
      intro place
      obtain ⟨start, hget, hle, hcharacter⟩ := exists_start hm hfirst place
      rw [Array.getD_eq_getD_getElem?, hget, Option.getD_some]
      omega
    monotone := position_strictMono hm hfirst }

/-- The carriage return and the line feed after it end one line. -/
example : (ofSource "a\nbc\r\nd\re").starts = #[0, 2, 6, 8] ∧
    (ofSource "a\nbc\r\nd\re").position 9 = ⟨3, 1⟩ := by decide +kernel

end KotlinTree.LineMap
