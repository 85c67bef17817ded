import KotlinTree.Proofs.Text.Parts
import KotlinTree.Types.Basic

/-!
Types and their written form. Main statement: what a type is written as is read back as that type, except
that a platform type has no mark and is read back as one that is not nullable; and what is read as a type
with a name is written as before, without the mark of a platform type (`parse_render_inverse`).

A class name is read back only if nothing in it is taken for something else: white space, a mark, or the
name of another type.
-/

namespace KotlinTree.Ty

/-- Names that are not taken for anything else when they are read. -/
structure IsClassName (name : String) : Prop where
  ne_empty : name ≠ ""
  first : ∀ c ∈ name.toList.head?, Text.isBlank c = false
  last : ∀ c ∈ name.toList.getLast?, Text.isBlank c = false ∧ c ≠ '?' ∧ c ≠ '!'
  ne_unknown : name ≠ "<unknown>"
  ne_nothing : name ≠ nothingName

instance (name : String) : Decidable (IsClassName name) :=
  decidable_of_iff (name ≠ "" ∧ name.toList.head?.all (fun c => !Text.isBlank c) ∧
      name.toList.getLast?.all (fun c => !Text.isBlank c && c ≠ '?' && c ≠ '!') ∧
      name ≠ "<unknown>" ∧ name ≠ nothingName) (by
    simp only [Option.all_eq_true, Bool.and_eq_true, Bool.not_eq_true', decide_eq_true_eq, and_assoc]
    exact ⟨fun ⟨h₁, h₂, h₃, h₄, h₅⟩ => ⟨h₁, h₂, h₃, h₄, h₅⟩, fun ⟨h₁, h₂, h₃, h₄, h₅⟩ => ⟨h₁, h₂, h₃, h₄, h₅⟩⟩)

/-- The types that can be read back. -/
def IsWritten : Ty → Prop
  | named name _ => IsClassName name
  | nothing _ | unknown => True

/-- A type as it is read back: nothing says of a platform type that it is one. -/
def withoutPlatform : Ty → Ty
  | named name .unknown => named name .notNull
  | t => t

/-- The mark of a nullable type and that of a platform type. -/
inductive IsMark : String → Nullability → Prop
  | nullable : IsMark "?" .nullable
  | platform : IsMark "!" .unknown

theorem splitMark_mark {mark : String} {n : Nullability} (h : IsMark mark n) (name : String) :
    splitMark (name ++ mark) = (name, n) := by
  cases h with
  | nullable => rw [splitMark, Text.dropLast?_append (by decide)]
  | platform =>
    have hnone : Text.dropLast? '?' (name ++ "!") = none := by
      apply Text.dropLast?_eq_none_iff.mpr
      rw [String.toList_append, show "!".toList = ['!'] by decide, List.getLast?_concat]
      decide
    rw [splitMark, hnone, Text.dropLast?_append (by decide)]

namespace IsClassName

variable {name : String}

theorem splitMark (h : IsClassName name) : splitMark name = (name, .notNull) := by
  have hmark (c : Char) (hc : c = '?' ∨ c = '!') : Text.dropLast? c name = none := by
    apply Text.dropLast?_eq_none_iff.mpr
    intro hlast
    have hne := (h.last c hlast).2
    exact hc.elim hne.1 hne.2
  rw [Ty.splitMark, hmark '?' (.inl rfl), hmark '!' (.inr rfl)]

theorem trim (h : IsClassName name) : Text.trim name = name :=
  Text.trim_eq_self h.first fun c hc => (h.last c hc).1

theorem toList_ne_nil (h : IsClassName name) : name.toList ≠ [] := by
  intro hnil
  apply h.ne_empty
  rw [← String.ofList_toList (s := name), hnil]

theorem trim_mark (h : IsClassName name) {mark : String} {n : Nullability} (hmark : IsMark mark n) :
    Text.trim (name ++ mark) = name ++ mark := by
  apply Text.trim_eq_self
  · have hfirst := h.first
    obtain ⟨c, cs, hcons⟩ := List.exists_cons_of_ne_nil h.toList_ne_nil
    rw [hcons] at hfirst
    rw [String.toList_append, hcons]
    exact hfirst
  · cases hmark <;> simp [String.toList_append, Text.isBlank]

/-- No mark makes the text of an unknown type. -/
theorem mark_ne_unknown (h : IsClassName name) {mark : String} {n : Nullability}
    (hmark : IsMark mark n) : name ++ mark ≠ "" ∧ name ++ mark ≠ "<unknown>" := by
  constructor
  · intro heq
    have hnil := congrArg String.toList heq
    rw [String.toList_append] at hnil
    exact h.toList_ne_nil (List.append_eq_nil_iff.mp hnil).1
  · intro heq
    have hlast := congrArg (fun s => s.toList.getLast?) heq
    cases hmark <;> simp [String.toList_append] at hlast

theorem parse (h : IsClassName name) : Ty.parse name = .named name .notNull := by
  have hne : ¬ (name = "" ∨ name = "<unknown>") := not_or.mpr ⟨h.ne_empty, h.ne_unknown⟩
  rw [Ty.parse]
  dsimp only
  rw [h.trim, if_neg hne, h.splitMark]
  exact if_neg h.ne_nothing

theorem parse_mark (h : IsClassName name) {mark : String} {n : Nullability} (hmark : IsMark mark n) :
    Ty.parse (name ++ mark) = .named name n := by
  have hne : ¬ (name ++ mark = "" ∨ name ++ mark = "<unknown>") := not_or.mpr (h.mark_ne_unknown hmark)
  rw [Ty.parse]
  dsimp only
  rw [h.trim_mark hmark, if_neg hne, splitMark_mark hmark]
  exact if_neg h.ne_nothing

end IsClassName

example : IsClassName "kotlin.Int" := by decide

theorem parse_render {t : Ty} (h : t.IsWritten) : parse t.render = t.withoutPlatform := by
  cases t with
  | unknown => decide
  | nothing isNullable => cases isNullable <;> decide
  | named name n =>
    have hname : IsClassName name := h
    cases n with
    | nullable => exact hname.parse_mark .nullable
    | notNull => exact hname.parse
    | unknown => exact hname.parse

/-- A text without the mark of a platform type. -/
def withoutMark (text : String) : String := (Text.dropLast? '!' text).getD text

/-- The three forms of a text that is read as a type. -/
theorem render_splitMark (text : String) :
    (named (splitMark text).1 (splitMark text).2).render = withoutMark text := by
  unfold splitMark withoutMark
  cases hnullable : Text.dropLast? '?' text with
  | some name =>
    rw [Text.dropLast?_eq_some_iff] at hnullable
    have hplatform : Text.dropLast? '!' text = none := by
      apply Text.dropLast?_eq_none_iff.mpr
      rw [hnullable, List.getLast?_concat]
      decide
    rw [hplatform]
    apply String.toList_injective
    simp [render, hnullable, String.toList_append]
  | none =>
    cases Text.dropLast? '!' text with
    | some name => rfl
    | none => rfl

theorem render_parse {text name : String} (h : (parse text).name? = some name) :
    (parse text).render = withoutMark (Text.trim text) := by
  rw [← render_splitMark]
  rw [parse] at h ⊢
  dsimp only at h ⊢
  split at h
  · cases h
  · rename_i hne
    rw [if_neg hne]
    split
    · rename_i hname
      rw [render, render, hname]
      simp
    · rfl

/-- An unknown type, the type without values and a class with a proper name are read back from what they
are written as, a platform type as one that is not nullable; a class is read back as a platform type from
its name with the mark of one. And a text that is read as a type with a name is what that type is written
as, up to white space around it and the mark of a platform type. -/
theorem parse_render_inverse :
    (∀ t : Ty, t.IsWritten → parse t.render = t.withoutPlatform) ∧
    (∀ name n, IsClassName name → parse (name ++ "!") = (named name n).withNullability .unknown) ∧
    (∀ text name, (parse text).name? = some name →
      (parse text).render = withoutMark (Text.trim text)) :=
  ⟨fun _ h => parse_render h, fun _ _ h => h.parse_mark .platform, fun _ _ h => render_parse h⟩

end KotlinTree.Ty
