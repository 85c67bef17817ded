import Mathlib.Data.List.TakeWhile
import KotlinTree.Scope.File

/-!
Texts and their parts between points. Main statement: the parts of a text, with points between them,
are the text again, so that a text before a point is put together from the first of the parts.
-/

namespace KotlinTree

namespace Text

section
variable {α : Type} {p : α → Bool}

theorem partsBy_ne_nil (xs : List α) : partsBy p xs ≠ [] := by
  cases xs with
  | nil => simp [partsBy]
  | cons x xs =>
    rw [partsBy]
    split
    · exact List.cons_ne_nil _ _
    · split <;> exact List.cons_ne_nil _ _

/-- A separator cuts a list in two, and the parts of both sides are its parts. -/
theorem partsBy_append_cons {x : α} (hx : p x) (front back : List α) :
    partsBy p (front ++ x :: back) = partsBy p front ++ partsBy p back := by
  induction front with
  | nil => simp [partsBy, hx]
  | cons y front ih =>
    rw [List.cons_append, partsBy, partsBy, ih]
    split
    · rfl
    · obtain ⟨part, parts, hparts⟩ := List.exists_cons_of_ne_nil (partsBy_ne_nil (p := p) front)
      rw [hparts]
      rfl

theorem length_partsBy (xs : List α) : (partsBy p xs).length = xs.countP p + 1 := by
  induction xs with
  | nil => rfl
  | cons x xs ih =>
    obtain ⟨part, parts, hparts⟩ := List.exists_cons_of_ne_nil (partsBy_ne_nil (p := p) xs)
    rw [hparts, List.length_cons] at ih
    by_cases hx : p x
    · rw [partsBy, if_pos hx, hparts, List.countP_cons_of_pos hx]
      simp only [List.length_cons]
      omega
    · rw [partsBy, if_neg hx, hparts, List.countP_cons_of_neg hx]
      exact ih

theorem partsBy_eq_singleton {xs : List α} (hxs : ∀ x ∈ xs, p x = false) : partsBy p xs = [xs] := by
  induction xs with
  | nil => rfl
  | cons x xs ih =>
    obtain ⟨hx, hrest⟩ := List.forall_mem_cons.mp hxs
    rw [partsBy, if_neg (Bool.eq_false_iff.mp hx), ih hrest]

end

theorem parts_ne_nil {isSeparator : Char → Bool} (s : String) : parts isSeparator s ≠ [] := by
  unfold parts
  rw [Ne, List.map_eq_nil_iff]
  exact partsBy_ne_nil _

theorem parts_append (front back : String) : parts (· = '.') (front ++ "." ++ back) =
    parts (· = '.') front ++ parts (· = '.') back := by
  have hpoint : (front ++ "." ++ back).toList = front.toList ++ '.' :: back.toList := by
    simp [String.toList_append]
  unfold parts
  rw [hpoint, partsBy_append_cons (by simp), List.map_append]

section
variable {α : Type} {p : α → Bool}

theorem dropWhile_eq_self {xs : List α} (h : ∀ x ∈ xs.head?, p x = false) : xs.dropWhile p = xs := by
  cases xs with
  | nil => rfl
  | cons x xs => rw [List.dropWhile_cons, h x rfl, if_neg Bool.false_ne_true]

/-- Nothing is taken off where the first and the last member stay. -/
theorem trimBy_eq_self {xs : List α} (hfirst : ∀ x ∈ xs.head?, p x = false)
    (hlast : ∀ x ∈ xs.getLast?, p x = false) : trimBy p xs = xs := by
  have hback : xs.reverse.dropWhile p = xs.reverse := by
    apply dropWhile_eq_self
    rw [List.head?_reverse]
    exact hlast
  rw [trimBy, dropWhile_eq_self hfirst, hback, List.reverse_reverse]

end

theorem trim_eq_self {s : String} (hfirst : ∀ c ∈ s.toList.head?, isBlank c = false)
    (hlast : ∀ c ∈ s.toList.getLast?, isBlank c = false) : trim s = s := by
  rw [trim, trimBy_eq_self hfirst hlast, String.ofList_toList]

theorem dropLast?_eq_some_iff {c : Char} {s front : String} :
    dropLast? c s = some front ↔ s.toList = front.toList ++ [c] := by
  have hreverse : s.toList = front.toList ++ [c] ↔ s.toList.reverse = c :: front.toList.reverse := by
    rw [List.reverse_eq_iff, List.reverse_cons, List.reverse_reverse]
  rw [hreverse]
  unfold dropLast?
  cases s.toList.reverse with
  | nil => exact iff_of_false nofun nofun
  | cons d rest =>
    dsimp only
    rw [List.cons.injEq, Option.ite_none_right_eq_some, Option.some.injEq]
    apply and_congr_right
    intro _
    constructor
    · intro h
      rw [← h, String.toList_ofList, List.reverse_reverse]
    · intro h
      rw [h, List.reverse_reverse, String.ofList_toList]

theorem dropLast?_append {c : Char} {mark : String} (hmark : mark.toList = [c]) (s : String) :
    dropLast? c (s ++ mark) = some s := by
  rw [dropLast?_eq_some_iff, String.toList_append, hmark]

theorem dropLast?_eq_none_iff {c : Char} {s : String} :
    dropLast? c s = none ↔ s.toList.getLast? ≠ some c := by
  rw [Option.eq_none_iff_forall_not_mem]
  constructor
  · intro h hlast
    obtain ⟨front, hfront⟩ := List.getLast?_eq_some_iff.mp hlast
    apply h (String.ofList front)
    rw [Option.mem_def, dropLast?_eq_some_iff, hfront, String.toList_ofList]
  · intro h front hfront
    rw [Option.mem_def, dropLast?_eq_some_iff] at hfront
    apply h
    rw [hfront, List.getLast?_concat]

/-- What comes after the last separator of a text that ends with a name is the name, if there is no
separator in the name itself. -/
theorem afterLast_append {isSeparator : Char → Bool} (front : List Char) {c : Char}
    (hc : isSeparator c) {last : List Char} (hlast : ∀ d ∈ last, isSeparator d = false) :
    afterLast isSeparator (String.ofList (front ++ c :: last)) = String.ofList last := by
  have hstop : (last.reverse ++ c :: front.reverse).takeWhile (fun d => !isSeparator d) =
      last.reverse := by
    rw [List.takeWhile_append_of_pos]
    · simp [hc]
    · intro d hd
      rw [hlast d (List.mem_reverse.mp hd)]
      rfl
  unfold afterLast
  rw [String.toList_ofList, List.reverse_append, List.reverse_cons, List.append_assoc,
    List.singleton_append, hstop, List.reverse_reverse]

theorem afterLast_eq_self {isSeparator : Char → Bool} {s : String}
    (hs : ∀ c ∈ s.toList, isSeparator c = false) : afterLast isSeparator s = s := by
  have hall : s.toList.reverse.takeWhile (fun c => !isSeparator c) = s.toList.reverse := by
    refine List.takeWhile_eq_self_iff.mpr fun c hc => ?_
    rw [hs c (List.mem_reverse.mp hc)]
    rfl
  unfold afterLast
  rw [hall, List.reverse_reverse, String.ofList_toList]

/-- The carriage return in front of a line feed is no part of the line. -/
theorem dropReturn_append (line : List Char) : dropReturn (line ++ ['\r']) = line := by
  unfold dropReturn
  rw [List.reverse_append, List.reverse_singleton, List.singleton_append]
  exact List.reverse_reverse line

theorem dropReturn_of_notMem {line : List Char} (h : '\r' ∉ line) : dropReturn line = line := by
  unfold dropReturn
  split
  · rename_i front hreverse
    have hmem : '\r' ∈ line.reverse := by
      rw [hreverse]
      exact List.mem_cons_self
    exact absurd (List.mem_reverse.mp hmem) h
  · rfl

/-- The lines up to a line feed do not depend on what comes after it. -/
theorem lines_append_cons (front back : List Char) :
    lines (String.ofList (front ++ '\n' :: back)) =
      (partsBy (· = '\n') front).map (fun line => String.ofList (dropReturn line)) ++
        lines (String.ofList back) := by
  have hparts : partsBy (· = '\n') (front ++ '\n' :: back) =
      partsBy (· = '\n') front ++ partsBy (· = '\n') back :=
    partsBy_append_cons (by simp) front back
  have hne : (partsBy (· = '\n') back).reverse ≠ [] := by
    rw [Ne, List.reverse_eq_nil_iff]
    exact partsBy_ne_nil back
  obtain ⟨last, ended, hback⟩ := List.exists_cons_of_ne_nil hne
  unfold lines
  rw [String.toList_ofList, String.toList_ofList, hparts, List.reverse_append, hback]
  by_cases hlast : last = []
  · simp [hlast]
  · simp [hlast]

theorem partsBy_of_notMem {line : List Char} (hfeed : '\n' ∉ line) :
    partsBy (· = '\n') line = [line] := by
  apply partsBy_eq_singleton
  intro c hc
  rw [decide_eq_false_iff_not]
  rintro rfl
  exact hfeed hc

theorem lines_of_notMem {line : List Char} (hfeed : '\n' ∉ line) (hne : line ≠ []) :
    lines (String.ofList line) = [String.ofList line] := by
  unfold lines
  rw [String.toList_ofList, partsBy_of_notMem hfeed]
  simp [hne]

theorem lines_line_append {line : List Char} (hfeed : '\n' ∉ line) (back : List Char) :
    lines (String.ofList (line ++ '\n' :: back)) =
      String.ofList (dropReturn line) :: lines (String.ofList back) := by
  rw [lines_append_cons, partsBy_of_notMem hfeed, List.map_singleton, List.singleton_append]

end Text

theorem dotted_singleton (name : String) : dotted [name] = name := String.intercalate_singleton

theorem dotted_cons {name : String} {names : List String} (h : names ≠ []) :
    dotted (name :: names) = name ++ "." ++ dotted names :=
  String.intercalate_cons_of_ne_nil h

theorem dotted_append {front back : List String} (hfront : front ≠ []) (hback : back ≠ []) :
    dotted (front ++ back) = dotted front ++ "." ++ dotted back :=
  String.intercalate_append_of_ne_nil hfront hback

theorem dotted_parts (s : String) : dotted (Text.parts (· = '.') s) = s := by
  have hchars (cs : List Char) :
      dotted ((Text.partsBy (· = '.') cs).map String.ofList) = String.ofList cs := by
    induction cs with
    | nil => rfl
    | cons c cs ih =>
      obtain ⟨part, parts, hparts⟩ :=
        List.exists_cons_of_ne_nil (Text.partsBy_ne_nil (p := (· = '.')) cs)
      rw [hparts] at ih
      rw [Text.partsBy, hparts]
      by_cases hc : c = '.'
      · -- A new part begins, and the one before it is empty.
        rw [if_pos (by simpa using hc), List.map_cons, dotted_cons (by simp), ih, hc]
        apply String.toList_injective
        simp [String.toList_append]
      · rw [if_neg (by simpa using hc)]
        have hchar : String.ofList (c :: part) = String.ofList [c] ++ String.ofList part := by
          rw [← String.ofList_append, List.singleton_append]
        have hrest : dotted ((c :: part) :: parts |>.map String.ofList) =
            String.ofList [c] ++ dotted ((part :: parts).map String.ofList) := by
          rw [List.map_cons, List.map_cons, hchar]
          cases parts with
          | nil => simp [dotted]
          | cons next parts =>
            rw [dotted_cons (by simp), dotted_cons (by simp), String.append_assoc,
              String.append_assoc, String.append_assoc]
        rw [hrest, ih, ← String.ofList_append, List.singleton_append]
  have h := hchars s.toList
  rwa [String.ofList_toList] at h

/-- What comes after the last point of a dotted name is its last name, if that has no point. -/
theorem afterLast_dotted {front : List String} {last : String} (hlast : '.' ∉ last.toList) :
    Text.afterLast (· = '.') (dotted (front ++ [last])) = last := by
  have hfree : ∀ c ∈ last.toList, (decide (c = '.')) = false := by
    intro c hc
    rw [decide_eq_false_iff_not]
    rintro rfl
    exact hlast hc
  by_cases hfront : front = []
  · subst hfront
    rw [List.nil_append, dotted_singleton]
    exact Text.afterLast_eq_self hfree
  · have hchars : dotted (front ++ [last]) =
        String.ofList ((dotted front).toList ++ '.' :: last.toList) := by
      rw [dotted_append hfront (List.cons_ne_nil _ _), dotted_singleton]
      apply String.toList_injective
      simp [String.toList_append]
    rw [hchars, Text.afterLast_append _ (by simp) hfree, String.ofList_toList]

end KotlinTree
