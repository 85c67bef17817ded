import Mathlib.Data.List.Induction
import KotlinTree.Attribution.Findings

/-!
Messages. Main statement: filling the holes of one argument after another is filling all of them at once,
as long as the arguments filled in before bring no hole of the next one (`fill_eq_fillAtOnce`).

An argument that brings one, such as a name in backticks, has a part of it replaced.
-/

namespace KotlinTree.Diagnostic

/-- A number is written in digits. -/
theorem isDigit_of_mem {c : Char} {i : Nat} (h : c ∈ Nat.toDigits 10 i) : c.isDigit = true :=
  Nat.isDigit_of_mem_toDigits (by decide) (by decide) h

/-- A hole is a number between braces. -/
theorem hole_append (i : Nat) (text : List Char) :
    hole i ++ text = '\x7b' :: (Nat.toDigits 10 i ++ '\x7d' :: text) := by
  rw [hole, Nat.toList_repr, List.cons_append, List.cons_append, List.append_assoc]
  rfl

/-- A hole is not empty. -/
theorem hole_ne_nil (i : Nat) : hole i ≠ [] := List.cons_ne_nil _ _

/-- No hole begins within another one. -/
theorem exists_hole_eq_cons (i : Nat) : ∃ front, '\x7b' ∉ front ∧ hole i = '\x7b' :: front := by
  refine ⟨Nat.toDigits 10 i ++ ['\x7d'], ?_, ?_⟩
  · rw [List.mem_append, not_or]
    exact ⟨fun h => absurd (isDigit_of_mem h) (by decide), by decide⟩
  · rw [← hole_append i [], List.append_nil]

/-- No two holes stand at the front of one text. -/
theorem hole_unique {i j : Nat} {text : List Char} (h : hole i <+: hole j ++ text) : i = j := by
  have number (n : Nat) (rest : List Char) :
      Nat.ofDigitChars 10 ((hole n ++ rest).tail.takeWhile Char.isDigit) 0 = n := by
    rw [hole_append, List.tail_cons, List.takeWhile_append_of_pos fun _ => isDigit_of_mem,
      List.takeWhile_cons_of_neg (by decide), List.append_nil, Nat.ofDigitChars_ten_toDigits]
  obtain ⟨rest, hrest⟩ := h
  rw [← number i rest, ← number j text, hrest]

/-- A hole begins with a brace. -/
theorem not_hole_prefix_cons {c : Char} (h : c ≠ '\x7b') (i : Nat) (text : List Char) :
    ¬ hole i <+: c :: text := by
  intro hp
  exact h (List.cons_prefix_cons.mp hp).1.symm

/-- A text is read from its front: a hole of one of the first arguments, or a character at which none of
these holes begins. -/
theorem template_induction {motive : List Char → Prop} (count : Nat) (nil : motive [])
    (filled : ∀ i < count, ∀ text, motive text → motive (hole i ++ text))
    (plain : ∀ c text, (∀ i < count, ¬ hole i <+: c :: text) → motive text → motive (c :: text))
    (template : List Char) : motive template := by
  -- On the length, since a hole takes more than one character.
  induction hlength : template.length using Nat.strongRecOn generalizing template with
  | ind length ih =>
    subst hlength
    cases template with
    | nil => exact nil
    | cons c text =>
      by_cases hhole : ∃ i < count, hole i <+: c :: text
      · obtain ⟨i, hi, rest, hrest⟩ := hhole
        rw [← hrest]
        apply filled i hi rest
        apply ih rest.length _ rest rfl
        have hpos : 0 < (hole i).length := List.length_pos_iff.mpr (hole_ne_nil i)
        rw [← hrest, List.length_append]
        omega
      · apply plain c text
        · intro i hi hp
          exact hhole ⟨i, hi, hp⟩
        · exact ih text.length (by rw [List.length_cons]; omega) text rfl

/-- The number of holes of an argument in a text. -/
def holesIn (i : Nat) : List Char → Nat
  | [] => 0
  | c :: text => (if (hole i).isPrefixOf (c :: text) then 1 else 0) + holesIn i text

/-- A hole at the front counts. -/
theorem holesIn_cons_of_starts {i : Nat} {c : Char} {text : List Char} (h : hole i <+: c :: text) :
    holesIn i (c :: text) = holesIn i text + 1 := by
  rw [holesIn, if_pos (List.isPrefixOf_iff_prefix.mpr h), Nat.add_comm]

/-- Where none is at the front, the holes are further on. -/
theorem holesIn_cons_of_not_starts {i : Nat} {c : Char} {text : List Char}
    (h : ¬ hole i <+: c :: text) : holesIn i (c :: text) = holesIn i text := by
  rw [holesIn, if_neg (mt List.isPrefixOf_iff_prefix.mp h), Nat.zero_add]

/-- No hole is lost where more is written before. -/
theorem holesIn_le_append (i : Nat) (front text : List Char) :
    holesIn i text ≤ holesIn i (front ++ text) := by
  induction front with
  | nil => exact Nat.le_refl _
  | cons c front ih => exact Nat.le_trans ih (Nat.le_add_left _ _)

/-- Text without braces has no hole, not even one that goes on in what follows. -/
theorem holesIn_append_of_notMem {front : List Char} (h : '\x7b' ∉ front) (i : Nat)
    (text : List Char) : holesIn i (front ++ text) = holesIn i text := by
  induction front with
  | nil => rfl
  | cons c front ih =>
    rw [List.mem_cons, not_or] at h
    rw [List.cons_append, holesIn_cons_of_not_starts (not_hole_prefix_cons (Ne.symm h.1) i _), ih h.2]

/-- A hole of one number is counted for it. -/
theorem holesIn_hole_append_self (i : Nat) (text : List Char) :
    holesIn i (hole i ++ text) = holesIn i text + 1 := by
  obtain ⟨front, hfront, heq⟩ := exists_hole_eq_cons i
  have hp : hole i <+: '\x7b' :: (front ++ text) := ⟨text, by rw [heq]; rfl⟩
  rw [heq, List.cons_append, holesIn_cons_of_starts hp, holesIn_append_of_notMem hfront]

/-- A hole of another number is not, and none reaches beyond it. -/
theorem holesIn_hole_append_of_ne {i j : Nat} (hne : i ≠ j) (text : List Char) :
    holesIn i (hole j ++ text) = holesIn i text := by
  obtain ⟨front, hfront, heq⟩ := exists_hole_eq_cons j
  have hp : ¬ hole i <+: '\x7b' :: (front ++ text) := by
    rw [← List.cons_append, ← heq]
    exact fun h => hne (hole_unique h)
  rw [heq, List.cons_append, holesIn_cons_of_not_starts hp, holesIn_append_of_notMem hfront]

section One

variable {pattern value : List Char}

/-- What has been taken as a hole is skipped. -/
theorem fillFrom_skip (front text : List Char) :
    fillFrom pattern value front.length (front ++ text) = fillFrom pattern value 0 text := by
  induction front with
  | nil => rfl
  | cons c front ih => exact ih

/-- A pattern at the front is filled. -/
theorem fillFrom_append_self (hne : pattern ≠ []) (text : List Char) :
    fillFrom pattern value 0 (pattern ++ text) = value ++ fillFrom pattern value 0 text := by
  obtain ⟨c, front, rfl⟩ := List.exists_cons_of_ne_nil hne
  have hp : (c :: front).isPrefixOf (c :: (front ++ text)) :=
    List.isPrefixOf_iff_prefix.mpr (List.prefix_append (c :: front) text)
  rw [List.cons_append, fillFrom, if_pos hp, List.length_cons, Nat.add_sub_cancel, fillFrom_skip]

/-- Where the pattern is not at the front, a character is copied. -/
theorem fillFrom_cons_of_not_starts {c : Char} {text : List Char} (h : ¬ pattern <+: c :: text) :
    fillFrom pattern value 0 (c :: text) = c :: fillFrom pattern value 0 text := by
  rw [fillFrom, if_neg (mt List.isPrefixOf_iff_prefix.mp h)]

/-- The front of a text stays if no hole begins in it. -/
theorem fillFrom_append_of_holesIn_le {i : Nat} {front text : List Char}
    (h : holesIn i (front ++ text) ≤ holesIn i text) :
    fillFrom (hole i) value 0 (front ++ text) = front ++ fillFrom (hole i) value 0 text := by
  induction front with
  | nil => rfl
  | cons c front ih =>
    have hle := holesIn_le_append i front text
    have hplain : ¬ hole i <+: c :: (front ++ text) := by
      intro hp
      rw [List.cons_append, holesIn_cons_of_starts hp] at h
      omega
    rw [List.cons_append, holesIn_cons_of_not_starts hplain] at h
    rw [List.cons_append, fillFrom_cons_of_not_starts hplain, ih h, List.cons_append]

end One

/-- The argument, with its number, whose hole stands at the front of a text. -/
def argument? (arguments : List String) (text : List Char) : Option (String × Nat) :=
  arguments.zipIdx.find? fun argument => (hole argument.2).isPrefixOf text

/-- Puts each argument in place of its holes from left to right; `skipped` characters are still to be
passed over as part of the last hole. -/
def fillAllFrom (arguments : List String) : Nat → List Char → List Char
  | _, [] => []
  | skipped + 1, _ :: text => fillAllFrom arguments skipped text
  | 0, c :: text =>
    match argument? arguments (c :: text) with
    | some argument =>
      argument.1.toList ++ fillAllFrom arguments ((hole argument.2).length - 1) text
    | none => c :: fillAllFrom arguments 0 text

/-- Fills all holes of a template at once. What an argument brings is left as it is. -/
def fillAtOnce (template : String) (arguments : List String) : String :=
  String.ofList (fillAllFrom arguments 0 template.toList)

section All

variable {arguments : List String}

/-- A hole at the front has the argument with its number. -/
theorem argument?_hole_append {i : Nat} (hi : i < arguments.length) (text : List Char) :
    argument? arguments (hole i ++ text) = some (arguments[i], i) := by
  cases hfound : argument? arguments (hole i ++ text) with
  | none =>
    have hmem : (arguments[i], i) ∈ arguments.zipIdx :=
      List.mk_mem_zipIdx_iff_getElem?.mpr (List.getElem?_eq_getElem hi)
    have hno := List.find?_eq_none.mp hfound _ hmem
    exact absurd (List.isPrefixOf_iff_prefix.mpr (List.prefix_append _ _)) hno
  | some argument =>
    have hp : (hole argument.2).isPrefixOf (hole i ++ text) = true := by
      simpa using List.find?_some hfound
    have hnumber : argument.2 = i := hole_unique (List.isPrefixOf_iff_prefix.mp hp)
    have hget : arguments[argument.2]? = some argument.1 :=
      List.mem_zipIdx_iff_getElem?.mp (List.mem_of_find?_eq_some hfound)
    rw [hnumber, List.getElem?_eq_getElem hi] at hget
    rw [Option.some.inj hget, ← hnumber]

/-- Where no hole is at the front, no argument is put there. -/
theorem argument?_eq_none {text : List Char} (h : ∀ i < arguments.length, ¬ hole i <+: text) :
    argument? arguments text = none := by
  apply List.find?_eq_none.mpr
  intro argument hmem hp
  have hget := List.mem_zipIdx_iff_getElem?.mp hmem
  obtain ⟨hi, -⟩ := List.getElem?_eq_some_iff.mp hget
  exact h argument.2 hi (List.isPrefixOf_iff_prefix.mp hp)

theorem fillAllFrom_skip (front text : List Char) :
    fillAllFrom arguments front.length (front ++ text) = fillAllFrom arguments 0 text := by
  induction front with
  | nil => rfl
  | cons c front ih => exact ih

/-- A hole at the front is filled with its argument. -/
theorem fillAllFrom_hole_append {i : Nat} (hi : i < arguments.length) (text : List Char) :
    fillAllFrom arguments 0 (hole i ++ text) =
      arguments[i].toList ++ fillAllFrom arguments 0 text := by
  obtain ⟨front, -, heq⟩ := exists_hole_eq_cons i
  have hlength : (hole i).length - 1 = front.length := by
    rw [heq, List.length_cons, Nat.add_sub_cancel]
  have hfound := argument?_hole_append hi text
  rw [heq, List.cons_append] at hfound ⊢
  rw [fillAllFrom, hfound]
  simp only [hlength, fillAllFrom_skip]

/-- Where no hole is at the front, a character is copied. -/
theorem fillAllFrom_cons_of_not_starts {c : Char} {text : List Char}
    (h : ∀ i < arguments.length, ¬ hole i <+: c :: text) :
    fillAllFrom arguments 0 (c :: text) = c :: fillAllFrom arguments 0 text := by
  rw [fillAllFrom, argument?_eq_none h]

/-- Text without braces is copied. -/
theorem fillAllFrom_append_of_notMem {front : List Char} (h : '\x7b' ∉ front) (text : List Char) :
    fillAllFrom arguments 0 (front ++ text) = front ++ fillAllFrom arguments 0 text := by
  induction front with
  | nil => rfl
  | cons c front ih =>
    rw [List.mem_cons, not_or] at h
    rw [List.cons_append, fillAllFrom_cons_of_not_starts, ih h.2, List.cons_append]
    exact fun i _ => not_hole_prefix_cons (Ne.symm h.1) i _

/-- The hole of no argument stays. -/
theorem fillAllFrom_hole_append_of_le {i : Nat} (hi : arguments.length ≤ i) (text : List Char) :
    fillAllFrom arguments 0 (hole i ++ text) = hole i ++ fillAllFrom arguments 0 text := by
  obtain ⟨front, hfront, heq⟩ := exists_hole_eq_cons i
  have hplain : ∀ j < arguments.length, ¬ hole j <+: '\x7b' :: (front ++ text) := by
    rw [← List.cons_append, ← heq]
    intro j hj hp
    have hsame := hole_unique hp
    omega
  rw [heq, List.cons_append, fillAllFrom_cons_of_not_starts hplain,
    fillAllFrom_append_of_notMem hfront, List.cons_append]

/-- Without arguments, the template is copied. -/
theorem fillAllFrom_nil (template : List Char) : fillAllFrom [] 0 template = template := by
  induction template with
  | nil => rfl
  | cons c text ih =>
    have hplain : ∀ i < ([] : List String).length, ¬ hole i <+: c :: text :=
      fun i hi => absurd hi (Nat.not_lt_zero i)
    rw [fillAllFrom_cons_of_not_starts hplain, ih]

/-- Filling takes away no hole of an argument that is yet to come. -/
theorem holesIn_le_fillAllFrom (template : List Char) :
    holesIn arguments.length template ≤
      holesIn arguments.length (fillAllFrom arguments 0 template) := by
  induction template using template_induction (arguments.length + 1) with
  | nil => exact Nat.le_refl _
  | filled i hi text ih =>
    rcases Nat.lt_succ_iff_lt_or_eq.mp hi with hi | rfl
    · rw [holesIn_hole_append_of_ne (Nat.ne_of_gt hi), fillAllFrom_hole_append hi]
      exact Nat.le_trans ih (holesIn_le_append _ _ _)
    · rw [fillAllFrom_hole_append_of_le (Nat.le_refl _), holesIn_hole_append_self,
        holesIn_hole_append_self]
      exact Nat.succ_le_succ ih
  | plain c text hplain ih =>
    rw [holesIn_cons_of_not_starts (hplain _ (Nat.lt_succ_self _)),
      fillAllFrom_cons_of_not_starts fun i hi => hplain i (Nat.lt_succ_of_lt hi)]
    exact Nat.le_trans ih (holesIn_le_append _ [c] _)

/-- If the arguments bring no hole of the next one, filling that in after them is filling it in with
them. -/
theorem fillFrom_fillAllFrom {value : String} {template : List Char}
    (h : holesIn arguments.length (fillAllFrom arguments 0 template) ≤
      holesIn arguments.length template) :
    fillFrom (hole arguments.length) value.toList 0 (fillAllFrom arguments 0 template) =
      fillAllFrom (arguments ++ [value]) 0 template := by
  have hlength : (arguments ++ [value]).length = arguments.length + 1 := List.length_append
  induction template using template_induction (arguments.length + 1) with
  | nil => rfl
  | filled i hi text ih =>
    have hmore : holesIn arguments.length text ≤
        holesIn arguments.length (fillAllFrom arguments 0 text) := holesIn_le_fillAllFrom text
    have hall := fillAllFrom_hole_append (i := i) (hlength ▸ hi) text
    rcases Nat.lt_succ_iff_lt_or_eq.mp hi with hi | rfl
    · -- The text after the hole has all holes of the next argument, so what came in has none.
      have hrest := holesIn_le_append arguments.length arguments[i].toList
        (fillAllFrom arguments 0 text)
      rw [holesIn_hole_append_of_ne (Nat.ne_of_gt hi), fillAllFrom_hole_append hi] at h
      rw [fillAllFrom_hole_append hi, fillFrom_append_of_holesIn_le (Nat.le_trans h hmore),
        ih (Nat.le_trans hrest h), hall, List.getElem_append_left hi]
    · rw [fillAllFrom_hole_append_of_le (Nat.le_refl _), holesIn_hole_append_self,
        holesIn_hole_append_self] at h
      rw [fillAllFrom_hole_append_of_le (Nat.le_refl _), fillFrom_append_self (hole_ne_nil _),
        ih (Nat.le_of_succ_le_succ h), hall, List.getElem_concat_length rfl]
  | plain c text hplain ih =>
    -- No hole begins with the character, though the text after it has changed.
    have hmore : holesIn arguments.length text ≤
        holesIn arguments.length (fillAllFrom arguments 0 text) := holesIn_le_fillAllFrom text
    have hrest := holesIn_le_append arguments.length [c] (fillAllFrom arguments 0 text)
    rw [holesIn_cons_of_not_starts (hplain _ (Nat.lt_succ_self _)),
      fillAllFrom_cons_of_not_starts fun i hi => hplain i (Nat.lt_succ_of_lt hi)] at h
    have hfront : holesIn arguments.length ([c] ++ fillAllFrom arguments 0 text) ≤
        holesIn arguments.length (fillAllFrom arguments 0 text) := Nat.le_trans h hmore
    calc fillFrom (hole arguments.length) value.toList 0 (fillAllFrom arguments 0 (c :: text))
        = fillFrom (hole arguments.length) value.toList 0 ([c] ++ fillAllFrom arguments 0 text) := by
          rw [fillAllFrom_cons_of_not_starts fun i hi => hplain i (Nat.lt_succ_of_lt hi)]
          rfl
      _ = c :: fillFrom (hole arguments.length) value.toList 0 (fillAllFrom arguments 0 text) :=
          fillFrom_append_of_holesIn_le hfront
      _ = c :: fillAllFrom (arguments ++ [value]) 0 text := by rw [ih (Nat.le_trans hrest h)]
      _ = fillAllFrom (arguments ++ [value]) 0 (c :: text) := by
          rw [fillAllFrom_cons_of_not_starts fun i hi => hplain i (hlength ▸ hi)]

end All

section

variable {template : String} {arguments : List String}

/-- No argument brings a hole of a later one: with those before it filled in, the text has no more holes
of an argument than the template has. -/
def BringsNoHole (template : String) (arguments : List String) : Prop :=
  ∀ i < arguments.length,
    holesIn i (fillAtOnce template (arguments.take i)).toList ≤ holesIn i template.toList

instance (template : String) (arguments : List String) :
    Decidable (BringsNoHole template arguments) :=
  inferInstanceAs (Decidable (∀ i < arguments.length, _))

/-- Fewer arguments bring no hole either. -/
theorem BringsNoHole.init {value : String} (h : BringsNoHole template (arguments ++ [value])) :
    BringsNoHole template arguments := by
  intro i hi
  have hle := h i (by rw [List.length_append]; omega)
  rwa [List.take_append_of_le_length (Nat.le_of_lt hi)] at hle

/-- The arguments before the last bring no hole for it. -/
theorem BringsNoHole.last {value : String} (h : BringsNoHole template (arguments ++ [value])) :
    holesIn arguments.length (fillAllFrom arguments 0 template.toList) ≤
      holesIn arguments.length template.toList := by
  have hle := h arguments.length (by rw [List.length_append]; exact Nat.lt_succ_self _)
  rwa [List.take_left, fillAtOnce, String.toList_ofList] at hle

/-- The rounds of filling, one for each argument, come to filling at once. -/
theorem foldl_fillFrom (h : BringsNoHole template arguments) :
    arguments.zipIdx.foldl
      (fun text argument => fillFrom (hole argument.2) argument.1.toList 0 text) template.toList =
      fillAllFrom arguments 0 template.toList := by
  induction arguments using List.reverseRecOn with
  | nil => exact (fillAllFrom_nil _).symm
  | append_singleton arguments value ih =>
    rw [List.zipIdx_append, List.foldl_append, ih h.init, Nat.zero_add, List.zipIdx_singleton]
    exact fillFrom_fillAllFrom h.last

/-- Every hole of the template has its argument in its place, and what an argument brings is left as it
is, if no argument brings a hole of a later one. -/
theorem fill_eq_fillAtOnce (h : BringsNoHole template arguments) :
    fill template arguments = fillAtOnce template arguments := by
  rw [fill, foldl_fillFrom h, fillAtOnce]

/-- Braces and holes in arguments do no harm where no later argument is meant: the first of these has a
hole of its own number and the beginning of another, the second holes of both. -/
theorem fill_unresolvedMember :
    BringsNoHole Finding.unresolvedMember.template ["\x7b0\x7d\x7b1", "\x7b0\x7d\x7b1\x7d"] ∧
      fill Finding.unresolvedMember.template ["\x7b0\x7d\x7b1", "\x7b0\x7d\x7b1\x7d"] =
        "Unresolved member '\x7b0\x7d\x7b1' on type '\x7b0\x7d\x7b1\x7d'." := by
  have hnone : BringsNoHole Finding.unresolvedMember.template
      ["\x7b0\x7d\x7b1", "\x7b0\x7d\x7b1\x7d"] := by decide +kernel
  refine ⟨hnone, ?_⟩
  rw [fill_eq_fillAtOnce hnone]
  decide +kernel

/-- The first argument is a name in backticks that is taken for the hole of the second. -/
example : fill Finding.unresolvedMember.template ["\x7b1\x7d", "T"] =
    "Unresolved member 'T' on type 'T'." := by
  decide +kernel

end

end KotlinTree.Diagnostic

namespace KotlinTree

/-- A code that is written is read again. -/
theorem Finding.ofCode?_code (finding : Finding) : ofCode? finding.code = some finding := by
  cases finding <;> rfl

end KotlinTree
