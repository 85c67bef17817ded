import KotlinTree.Proofs.LineMap
import KotlinTree.Proofs.Text.Parts
import KotlinTree.Report

/-!
The line that a report shows. Main statement: a report of a diagnostic shows the line on which the map of
the source finds its place, and shows it if it is not empty, as long as no carriage return up to the end
of that line stands without a line feed (`renderDiagnostic_line`).

The map takes such a carriage return for the end of a line, the lines for display do not. From there on
a report shows another line than that of the number before it, or none.
-/

namespace KotlinTree

open Text

namespace LineMap

/-- A line of a source, without what ends it. -/
structure Line where
  start : Nat
  text : List Char
  deriving DecidableEq, Repr

def Line.stop (line : Line) : Nat := line.start + byteSize line.text

/-- The text from where a map says that a line starts up to the next character that ends a line. -/
def line? (m : LineMap) (source : String) (number : Nat) : Option Line := do
  let start ← m.starts[number]?
  let rest ← dropBytes? source.toList start
  return ⟨start, rest.takeWhile fun c => !Trivia.isLineEnd c⟩

/-- Every carriage return up to a place has a line feed after it. -/
def PairedUpTo (source : String) (stop : Nat) : Prop :=
  ∀ i < source.toList.length, source.toList[i]? = some '\r' →
    byteSize (source.toList.take i) ≤ stop → source.toList[i + 1]? = some '\n'

instance (source : String) (stop : Nat) : Decidable (PairedUpTo source stop) :=
  inferInstanceAs (Decidable (∀ i < source.toList.length, _))

theorem PairedUpTo.next {source : String} {stop : Nat} (h : PairedUpTo source stop)
    (front back : List Char) (htext : front ++ '\r' :: back = source.toList)
    (hle : byteSize front ≤ stop) : ['\n'] <+: back := by
  have hlt : front.length < source.toList.length := by
    rw [← htext, List.length_append, List.length_cons]
    omega
  have hreturn : source.toList[front.length]? = some '\r' := by
    rw [← htext, List.getElem?_append_right (Nat.le_refl _), Nat.sub_self]
    rfl
  have htake : byteSize (source.toList.take front.length) ≤ stop := by
    rwa [← htext, List.take_left]
  have hnext := h front.length hlt hreturn htake
  rw [← htext, List.getElem?_append_right (Nat.le_add_right _ 1), Nat.add_sub_cancel_left] at hnext
  cases back with
  | nil => exact absurd hnext (by simp)
  | cons c back =>
    rw [← Option.some.inj hnext]
    exact ⟨back, rfl⟩

/-- What follows a text does not make its characters one half of an end of a line, unless it ends with a
carriage return. -/
theorem startsAfter_cons_append {place : Nat} {c : Char} {cs back : List Char}
    (hfront : ¬ ['\r'] <:+ c :: cs) (hcrlf : ∀ rest, c = '\r' → cs = '\n' :: rest → False) :
    startsAfter place (c :: (cs ++ back)) =
      if c = '\n' ∨ c = '\r' then
        (place + c.utf8Size) :: startsAfter (place + c.utf8Size) (cs ++ back)
      else startsAfter (place + c.utf8Size) (cs ++ back) := by
  rw [startsAfter]
  rintro rest rfl htext
  cases cs with
  | nil => exact hfront (List.suffix_refl _)
  | cons d cs =>
    obtain ⟨rfl, -⟩ := List.cons.inj htext
    exact hcrlf cs rfl rfl

/-- The starts in a text that begins with whole lines are those in the lines and those after them. -/
theorem startsAfter_append {place : Nat} {front : List Char} (hfront : ¬ ['\r'] <:+ front)
    (back : List Char) : startsAfter place (front ++ back) =
      startsAfter place front ++ startsAfter (place + byteSize front) back := by
  fun_induction startsAfter place front with
  | case1 place => rfl
  | case2 place cs ih =>
    -- The front does not end with a carriage return, so neither does what is left of it.
    have hcs : ¬ ['\r'] <:+ cs := by
      intro h
      exact hfront (h.trans ((List.suffix_cons _ _).trans (List.suffix_cons _ _)))
    have hsize : place + byteSize ('\r' :: '\n' :: cs) = place + 2 + byteSize cs :=
      byteSize_pair rfl rfl place cs
    calc startsAfter place ('\r' :: '\n' :: (cs ++ back))
        = (place + 2) :: startsAfter (place + 2) (cs ++ back) := by rw [startsAfter]
      _ = (place + 2) :: (startsAfter (place + 2) cs ++ startsAfter (place + 2 + byteSize cs) back) := by
        rw [ih hcs]
      _ = _ := by rw [← hsize, List.cons_append]
  | case3 place c cs hcrlf next hc ih | case4 place c cs hcrlf next hc ih =>
    have hcs : ¬ ['\r'] <:+ cs := fun h => hfront (h.trans (List.suffix_cons _ _))
    have hsize : place + byteSize (c :: cs) = next + byteSize cs := by
      rw [byteSize_cons, ← Nat.add_assoc]
    rw [List.cons_append, startsAfter_cons_append hfront hcrlf, hsize]
    simp only [hc, if_true, if_false, List.cons_append]
    rw [ih hcs]

/-- Every carriage return of a text has a line feed after it. -/
def Paired (cs : List Char) : Prop :=
  ∀ front back, cs = front ++ '\r' :: back → ['\n'] <+: back

/-- Where every carriage return has a line feed after it, there are as many lines as line feeds. -/
theorem length_startsAfter {place : Nat} {cs : List Char} (h : Paired cs) :
    (startsAfter place cs).length = cs.count '\n' := by
  fun_induction startsAfter place cs with
  | case1 => rfl
  | case2 place cs ih =>
    have hrest : (startsAfter (place + 2) cs).length = cs.count '\n' := by
      apply ih
      rintro front back rfl
      exact h ('\r' :: '\n' :: front) back rfl
    rw [List.length_cons, hrest, List.count_cons_of_ne (by decide), List.count_cons_self]
  | case3 place c cs hcrlf next hc ih =>
    have hfeed : c = '\n' := by
      rcases hc with rfl | rfl
      · rfl
      · -- A lone carriage return is excluded.
        obtain ⟨rest, hrest⟩ := h [] cs rfl
        exact absurd hrest.symm (hcrlf rest rfl)
    subst hfeed
    rw [List.length_cons, ih fun front back hcs => h ('\n' :: front) back (by rw [hcs]; rfl),
      List.count_cons_self]
  | case4 place c cs hcrlf next hc ih =>
    have hne : c ≠ '\n' := fun heq => hc (Or.inl heq)
    rw [ih fun front back hcs => h (c :: front) back (by rw [hcs]; rfl), List.count_cons_of_ne hne]

/-- A text of whole lines that end with a line feed each, with a carriage return before it or not. -/
structure Whole (cs : List Char) : Prop where
  ended : cs = [] ∨ ['\n'] <:+ cs
  paired : Paired cs

theorem Whole.not_return {cs : List Char} (h : Whole cs) : ¬ ['\r'] <:+ cs := by
  rcases h.ended with rfl | ⟨front, rfl⟩
  · simp
  · rintro ⟨back, hback⟩
    exact absurd (List.append_inj' hback rfl).2 (by decide)

/-- What is before a line consists of whole lines if each carriage return in it has a line feed after it,
be that in the line. -/
theorem whole_of_endsLine {front back : List Char} (hends : front = [] ∨ EndsLine front back)
    (hreturn : ∀ a b, front = a ++ '\r' :: b → ['\n'] <+: b ++ back) : Whole front := by
  have hended : front = [] ∨ ['\n'] <:+ front := by
    rcases hends with hnil | hfeed | ⟨⟨a, hlast⟩, hlone⟩
    · exact Or.inl hnil
    · exact Or.inr hfeed
    · exact absurd (hreturn a [] hlast.symm) hlone
  refine ⟨hended, ?_⟩
  intro a b hfront
  cases b with
  | nil =>
    -- The last character is a line feed.
    rcases hended with rfl | ⟨c, rfl⟩
    · exact absurd hfront (by simp)
    · exact absurd (List.append_inj' hfront rfl).2 (by decide)
  | cons d b =>
    have hfeed := hreturn a (d :: b) hfront
    rw [List.cons_append, List.cons_prefix_cons] at hfeed
    rw [← hfeed.1]
    exact ⟨b, rfl⟩

/-- As many lines start up to the end of some whole lines as these have line feeds, and one more. -/
theorem countP_starts_whole {source : String} {front back : List Char} (h : Whole front)
    (htext : front ++ back = source.toList) :
    (ofSource source).starts.countP (· ≤ byteSize front) = front.count '\n' + 1 := by
  -- Starts within the whole lines are counted; those behind them are not.
  have hbefore : ∀ start ∈ startsAfter 0 front, decide (start ≤ byteSize front) = true := by
    intro start hstart
    obtain ⟨a, b, rfl, hsize, -⟩ := mem_startsAfter_iff.mp hstart
    rw [decide_eq_true_iff, byteSize_append]
    omega
  have hafter : ∀ start ∈ startsAfter (byteSize front) back,
      ¬ decide (start ≤ byteSize front) = true := by
    intro start hstart
    have hlt := lt_of_mem_startsAfter hstart
    rw [decide_eq_true_iff]
    omega
  calc (ofSource source).starts.countP (· ≤ byteSize front)
      = (0 :: (startsAfter 0 front ++ startsAfter (byteSize front) back)).countP
          (· ≤ byteSize front) := by
        rw [← Array.countP_toList, toList_starts_ofSource, ← htext, startsAfter_append h.not_return,
          Nat.zero_add]
    _ = (startsAfter 0 front).length + 1 := by
        rw [List.countP_cons_of_pos (by simp), List.countP_append, List.countP_eq_length.mpr hbefore,
          List.countP_eq_zero.mpr hafter, Nat.add_zero]
    _ = front.count '\n' + 1 := by rw [length_startsAfter h.paired]

/-- A line and the texts before and after its start. -/
theorem exists_of_line? {source : String} {number : Nat} {line : Line}
    (hline : (ofSource source).line? source number = some line) :
    ∃ front back, front ++ back = source.toList ∧ byteSize front = line.start ∧
      line.text = back.takeWhile (fun c => !Trivia.isLineEnd c) ∧
      (front = [] ∨ EndsLine front back) ∧
      (ofSource source).starts.countP (· ≤ line.start) = number + 1 := by
  obtain ⟨start, hget, hline⟩ := Option.bind_eq_some_iff.mp hline
  obtain ⟨rest, hrest, hline⟩ := Option.bind_eq_some_iff.mp hline
  obtain rfl := Option.some.inj hline
  obtain ⟨hnumber, rfl⟩ := Array.getElem?_eq_some_iff.mp hget
  have hstarts : StartsLine source (ofSource source).starts[number] :=
    mem_starts_ofSource_iff.mp (Array.getElem_mem hnumber)
  obtain ⟨front, back, htext, hsize, hends⟩ := hstarts.exists_front
  have hback : back = rest := by
    rw [← hsize, ← htext, dropBytes?_append] at hrest
    exact Option.some.inj hrest
  subst hback
  exact ⟨front, back, htext, hsize, rfl, hends, countP_getElem (ofSource_increasing source) hnumber⟩

/-- Before a line are whole lines, as many as its number says. -/
theorem exists_whole {source : String} {number : Nat} {line : Line}
    (hline : (ofSource source).line? source number = some line)
    (hpaired : PairedUpTo source line.stop) :
    ∃ front back, front ++ back = source.toList ∧ byteSize front = line.start ∧
      line.text = back.takeWhile (fun c => !Trivia.isLineEnd c) ∧ Whole front ∧
      front.count '\n' = number := by
  obtain ⟨front, back, htext, hsize, htake, hends, hnumber⟩ := exists_of_line? hline
  have hwhole : Whole front := by
    apply whole_of_endsLine hends
    rintro a b rfl
    apply hpaired.next a (b ++ back)
    · rw [← htext, List.append_assoc, List.cons_append]
    · rw [Line.stop, ← hsize, byteSize_append]
      omega
  have hcount := countP_starts_whole hwhole htext
  rw [hsize, hnumber] at hcount
  exact ⟨front, back, htext, hsize, htake, hwhole, (Nat.add_right_cancel hcount).symm⟩

end LineMap

namespace Text

/-- The lines of a text from the one on that comes after some whole lines. -/
theorem getElem?_lines_append {front : List Char} (hfront : front = [] ∨ ['\n'] <:+ front)
    (back : List Char) :
    (lines (String.ofList (front ++ back)))[front.count '\n']? = (lines (String.ofList back))[0]? := by
  rcases hfront with rfl | ⟨front, rfl⟩
  · rfl
  · have hlength : ((partsBy (· = '\n') front).map fun line => String.ofList (dropReturn line)).length =
        (front ++ ['\n']).count '\n' := by
      rw [List.length_map, length_partsBy, List.count_append, List.count_singleton_self]
      rfl
    rw [List.append_assoc, List.singleton_append, lines_append_cons, ← hlength,
      List.getElem?_append_right (Nat.le_refl _), Nat.sub_self]

/-- A text that is not empty begins with a line for display: its characters up to the first that ends a
line, unless that is a carriage return alone. -/
theorem getElem?_lines_zero {text rest : List Char} (htext : ∀ c ∈ text, Trivia.isLineEnd c = false)
    (hrest : rest = [] ∨ ['\n'] <+: rest ∨ ['\r', '\n'] <+: rest) :
    (lines (String.ofList (text ++ rest)))[0]? =
      if text ++ rest = [] then none else some (String.ofList text) := by
  have hfeed : '\n' ∉ text := fun h => absurd (htext _ h) (by decide)
  have hreturn : '\r' ∉ text := fun h => absurd (htext _ h) (by decide)
  rcases hrest with rfl | ⟨rest, rfl⟩ | ⟨rest, rfl⟩
  · rw [List.append_nil]
    by_cases hne : text = []
    · rw [if_pos hne, hne]
      rfl
    · rw [if_neg hne, lines_of_notMem hfeed hne]
      rfl
  · rw [if_neg (by simp), List.singleton_append, lines_line_append hfeed, dropReturn_of_notMem hreturn]
    rfl
  · have hline : text ++ (['\r', '\n'] ++ rest) = (text ++ ['\r']) ++ '\n' :: rest := by simp
    have hnone : '\n' ∉ text ++ ['\r'] := by simp [hfeed]
    rw [if_neg (by simp), hline, lines_line_append hnone, dropReturn_append]
    rfl

end Text

namespace LineMap

/-- The line for display at the number of a line is that line, unless it is the empty end of the
source. -/
theorem getElem?_lines {source : String} {number : Nat} {line : Line}
    (hline : (ofSource source).line? source number = some line)
    (hpaired : PairedUpTo source line.stop) :
    (lines source)[number]? =
      if line.stop = source.utf8ByteSize ∧ line.text = [] then none
      else some (String.ofList line.text) := by
  -- The line begins after a line end, so what comes before it is made of whole lines.
  obtain ⟨front, back, htext, hsize, htake, hwhole, rfl⟩ := exists_whole hline hpaired
  have hsplit : back = line.text ++ back.dropWhile fun c => !Trivia.isLineEnd c := by
    rw [htake, List.takeWhile_append_dropWhile]
  have hfree : ∀ c ∈ line.text, Trivia.isLineEnd c = false := by
    rw [htake]
    intro c hc
    simpa using List.mem_takeWhile_imp hc
  have hhead := List.head?_dropWhile_not (fun c => !Trivia.isLineEnd c) back
  generalize back.dropWhile (fun c => !Trivia.isLineEnd c) = rest at hsplit hhead
  have htotal : source.utf8ByteSize = line.stop + byteSize rest := by
    rw [← byteSize_toList, ← htext, hsplit, byteSize_append, byteSize_append, hsize, Line.stop,
      Nat.add_assoc]
  -- The line is ended by a line feed, alone or after a carriage return, as the two are paired.
  have hends : rest = [] ∨ ['\n'] <+: rest ∨ ['\r', '\n'] <+: rest := by
    cases rest with
    | nil => exact Or.inl rfl
    | cons c rest =>
      have hc : Trivia.isLineEnd c = true := by simpa using hhead
      simp only [Trivia.isLineEnd, Bool.or_eq_true, decide_eq_true_eq] at hc
      apply Or.inr
      rcases hc with rfl | rfl
      · exact Or.inl ⟨rest, rfl⟩
      · have hfeed : ['\n'] <+: rest := by
          apply hpaired.next (front ++ line.text) rest
          · rw [← htext, hsplit, List.append_assoc]
          · rw [byteSize_append, hsize, Line.stop]
        exact Or.inr (List.cons_prefix_cons.mpr ⟨rfl, hfeed⟩)
  -- The last line is not one if it is empty.
  have hempty : (line.stop = source.utf8ByteSize ∧ line.text = []) ↔ line.text ++ rest = [] := by
    rw [List.append_eq_nil_iff]
    constructor
    · rintro ⟨hstop, hnil⟩
      exact ⟨hnil, byteSize_eq_zero (by omega)⟩
    · rintro ⟨hnil, rfl⟩
      exact ⟨htotal.symm, hnil⟩
  have hlines : lines source = lines (String.ofList (front ++ (line.text ++ rest))) := by
    rw [← hsplit, htext, String.ofList_toList]
  rw [hlines, getElem?_lines_append hwhole.ended, getElem?_lines_zero hfree hends]
  simp only [hempty]

/-- Every place is on a line. -/
theorem exists_line (source : String) (place : Nat) :
    ∃ line, (ofSource source).line? source ((ofSource source).position place).line = some line := by
  obtain ⟨start, hget, -, -⟩ := exists_start (ofSource_increasing source) rfl place
  have hstart : StartsLine source start :=
    mem_starts_ofSource_iff.mp (Array.mem_of_getElem? hget)
  obtain ⟨front, back, htext, hsize, -⟩ := hstart.exists_front
  have hrest : dropBytes? source.toList start = some back := by
    rw [← htext, ← hsize, dropBytes?_append]
  unfold line?
  rw [hget]
  simp only [Option.bind_eq_bind, Option.bind_some, hrest]
  exact ⟨_, rfl⟩

end LineMap

namespace Reporter

variable {r : Reporter} {d : Diagnostic} {source : String}

/-- What a report says before it shows a line: the place, the category, the code and the message. -/
def heading (r : Reporter) (d : Diagnostic) : String :=
  let place := match r.position? d.file d.start with
    | some position => d.file ++ ":" ++ positionText position
    | none => d.file
  place ++ " - " ++ r.categoryText d.category ++ " " ++ r.paint .code d.codeText ++ ": " ++ d.message

/-- A line with its number, and marks below it. -/
def shownLine (number : Nat) (text marks : String) : String :=
  "\n  " ++ rightAligned 3 number ++ "   " ++ text ++ "\n        " ++ marks

theorem snippet?_eq {position : Position} (hsource : r.source? d.file = some source)
    (hposition : (LineMap.ofSource source).position d.start = position) (hlength : 0 < d.length) :
    r.snippet? d = (lines source)[position.line]?.map fun line =>
      shownLine (position.line + 1) line
        (r.paint .underline (underline line position.character d.length)) := by
  have hplace : r.position? d.file d.start = some position := by
    rw [position?, hsource, Option.map_some, hposition]
  unfold snippet?
  rw [if_neg (Nat.ne_of_gt hlength), hsource, hplace]
  cases hline : (lines source)[position.line]? with
  | none => simp [hline]
  | some line => simp [hline, shownLine]

/-- A report shows the line on which the map of the source finds the place: the text from where the line
starts up to what ends it, unless that is the empty end of the source. No carriage return up to the end of
the line may stand alone. -/
theorem renderDiagnostic_line {position : Position} (hsource : r.source? d.file = some source)
    (hposition : (LineMap.ofSource source).position d.start = position) (hlength : 0 < d.length)
    (hpaired : ∀ line, (LineMap.ofSource source).line? source position.line = some line →
      LineMap.PairedUpTo source line.stop) :
    ∃ line, (LineMap.ofSource source).line? source position.line = some line ∧
      r.renderDiagnostic d = r.heading d ++
        if line.stop = source.utf8ByteSize ∧ line.text = [] then ""
        else shownLine (position.line + 1) (String.ofList line.text)
          (r.paint .underline
            (underline (String.ofList line.text) position.character d.length)) := by
  obtain ⟨line, hline⟩ := LineMap.exists_line source d.start
  rw [hposition] at hline
  refine ⟨line, hline, ?_⟩
  have hsnippet := snippet?_eq hsource hposition hlength
  rw [LineMap.getElem?_lines hline (hpaired line hline)] at hsnippet
  change r.heading d ++ (r.snippet? d).getD "" = _
  rw [hsnippet]
  split
  · rfl
  · rfl

/-- Lines that end with a carriage return and a line feed, with a line feed alone and with a carriage
return alone. -/
def mixedLines : Reporter := { sources := [("a.kt", "a\r\nb c\nd\re")] }

/-- The second line is shown, since the carriage return alone comes only after it. -/
theorem mixedLines_line :
    LineMap.PairedUpTo "a\r\nb c\nd\re" 6 ∧
      mixedLines.renderDiagnostic (.ofFinding "a.kt" (5, 1) .unresolvedReference ["c"]) =
        mixedLines.heading (.ofFinding "a.kt" (5, 1) .unresolvedReference ["c"]) ++
          shownLine 2 "b c" (mixedLines.paint .underline (underline "b c" 2 1)) := by
  have hsecond : (LineMap.ofSource "a\r\nb c\nd\re").line? "a\r\nb c\nd\re" 1 =
      some ⟨3, ['b', ' ', 'c']⟩ := by decide +kernel
  have hpaired : LineMap.PairedUpTo "a\r\nb c\nd\re" 6 := by decide +kernel
  have hsource : mixedLines.source? "a.kt" = some "a\r\nb c\nd\re" := rfl
  have hposition : (LineMap.ofSource "a\r\nb c\nd\re").position 5 = ⟨1, 2⟩ := by decide +kernel
  obtain ⟨line, hline, hshown⟩ := renderDiagnostic_line (r := mixedLines)
    (d := .ofFinding "a.kt" (5, 1) .unresolvedReference ["c"]) hsource hposition (by decide) (by
      intro line hline
      rw [← Option.some.inj (hsecond.symm.trans hline)]
      exact hpaired)
  rw [← Option.some.inj (hsecond.symm.trans hline)] at hshown
  exact ⟨hpaired, hshown⟩

/-- After a carriage return alone, the number is that of the line and the text that of a later line. -/
example : ({ sources := [("a.kt", "x\ry\nz\n")] } : Reporter).snippet?
    (.ofFinding "a.kt" (2, 1) .unresolvedReference ["y"]) = some "\n    2   z\n        ~" := by
  decide +kernel

end Reporter

end KotlinTree
