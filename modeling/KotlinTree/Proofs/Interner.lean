import Mathlib.Data.List.Nodup
import Std.Data.HashMap.Lemmas
import KotlinTree.Interner

/-!
A table of texts and the way back from a text to its number are inverse to each other. A text that enters
is put at the end, so that no number that was given out ever stands for another text
(`internAll_new_bijective`).
-/

namespace KotlinTree.Interner

variable {t : Interner} {text : String} {n : Nat}

/-- The table after some texts were entered, one after another. -/
def internAll (t : Interner) (texts : List String) : Interner :=
  texts.foldl (fun t text => (t.intern text).2) t

@[simp] theorem internAll_nil (t : Interner) : t.internAll [] = t := rfl

@[simp] theorem internAll_cons (t : Interner) (text : String) (texts : List String) :
    t.internAll (text :: texts) = (t.intern text).2.internAll texts := rfl

/-- A text has a number if and only if it stands at that place, and the empty text stands first. -/
structure Inverse (t : Interner) : Prop where
  number_iff (text : String) (n : Nat) : t.numbers[text]? = some n ↔ t.texts[n]? = some text
  first : t.texts[0]? = some ""

namespace Inverse

/-- A text is found where it is kept. -/
theorem lookup?_eq_some_iff (h : t.Inverse) {atom : Atom} :
    t.lookup? text = some atom ↔ t.texts[atom.index]? = some text := by
  rw [← h.number_iff, lookup?, Option.map_eq_some_iff]
  constructor
  · intro ⟨n, hn, hatom⟩
    rw [← hatom]
    exact hn
  · intro hn
    exact ⟨atom.index, hn, rfl⟩

/-- Every text that is kept is found. -/
theorem lookup?_isSome_iff (h : t.Inverse) : (t.lookup? text).isSome ↔ text ∈ t.texts := by
  rw [Option.isSome_iff_exists, Array.mem_iff_getElem?]
  constructor
  · intro ⟨atom, hatom⟩
    exact ⟨atom.index, h.lookup?_eq_some_iff.mp hatom⟩
  · intro ⟨n, hn⟩
    exact ⟨⟨n⟩, h.lookup?_eq_some_iff.mpr hn⟩

/-- No text stands at two places, since it has one number only. -/
theorem index_unique (h : t.Inverse) {m : Nat} (hm : t.texts[m]? = some text)
    (hn : t.texts[n]? = some text) : m = n := by
  have hnumber : some m = some n := by
    rw [← (h.number_iff text m).mpr hm, (h.number_iff text n).mpr hn]
  exact Option.some.inj hnumber

/-- No text is kept twice. -/
theorem nodup (h : t.Inverse) : t.texts.toList.Nodup := by
  rw [List.nodup_iff_getElem?_ne_getElem?]
  intro i j hij hj heq
  rw [Array.length_toList] at hj
  rw [Array.getElem?_toList, Array.getElem?_toList, Array.getElem?_eq_getElem hj] at heq
  have hindex : i = j := h.index_unique heq (Array.getElem?_eq_getElem hj)
  omega

end Inverse

/-- A text that is known keeps its number. -/
theorem intern_of_lookup?_eq_some {atom : Atom} (h : t.lookup? text = some atom) :
    t.intern text = (atom, t) := by
  rw [intern, h]

/-- A text that is not known is given the next number. -/
theorem intern_of_lookup?_eq_none (h : t.lookup? text = none) :
    t.intern text = (⟨t.texts.size⟩, ⟨t.texts.push text, t.numbers.insert text t.texts.size⟩) := by
  rw [intern, h]

/-- What stands in a table stays at its place. -/
theorem getElem?_intern (h : t.texts[n]? = some text) (other : String) :
    (t.intern other).2.texts[n]? = some text := by
  cases hl : t.lookup? other with
  | some atom =>
    rw [intern_of_lookup?_eq_some hl]
    exact h
  | none =>
    have hn : n < t.texts.size := (Array.getElem?_eq_some_iff.mp h).1
    rw [intern_of_lookup?_eq_none hl, Array.getElem?_push, if_neg (by omega)]
    exact h

theorem mem_texts_intern (h : t.Inverse) {other : String} :
    text ∈ (t.intern other).2.texts ↔ text ∈ t.texts ∨ text = other := by
  cases hl : t.lookup? other with
  | some atom =>
    have hmem : other ∈ t.texts := h.lookup?_isSome_iff.mp (Option.isSome_of_eq_some hl)
    rw [intern_of_lookup?_eq_some hl, or_iff_left_of_imp (fun heq => heq ▸ hmem)]
  | none =>
    rw [intern_of_lookup?_eq_none hl]
    exact Array.mem_push

/-- The table grows by texts that it did not have. -/
theorem Inverse.size_intern (h : t.Inverse) :
    (t.intern text).2.size = if text ∈ t.texts then t.size else t.size + 1 := by
  cases hl : t.lookup? text with
  | some atom =>
    rw [intern_of_lookup?_eq_some hl, if_pos (h.lookup?_isSome_iff.mp (Option.isSome_of_eq_some hl))]
  | none =>
    have hmem : text ∉ t.texts := by
      rw [← h.lookup?_isSome_iff, hl]
      decide
    rw [intern_of_lookup?_eq_none hl, if_neg hmem]
    exact Array.size_push text

/-- A new text gets the number of the place behind all others, which no other text has. -/
theorem Inverse.intern (h : t.Inverse) (text : String) : (t.intern text).2.Inverse := by
  cases hl : t.lookup? text with
  | some atom =>
    rw [intern_of_lookup?_eq_some hl]
    exact h
  | none =>
    have hmem : text ∉ t.texts := by
      rw [← h.lookup?_isSome_iff, hl]
      decide
    refine ⟨fun other n => ?_, getElem?_intern h.first text⟩
    rw [intern_of_lookup?_eq_none hl]
    dsimp only
    rw [Std.HashMap.getElem?_insert, Array.getElem?_push]
    -- The new text has the next number, which no other text has.
    by_cases heq : text = other
    · rw [if_pos (beq_iff_eq.mpr heq), ← heq, Option.some.injEq]
      constructor
      · intro hn
        rw [if_pos hn.symm]
      · intro hn
        by_contra hne
        rw [if_neg (Ne.symm hne)] at hn
        exact hmem (Array.mem_iff_getElem?.mpr ⟨n, hn⟩)
    · rw [if_neg (fun hbeq => heq (beq_iff_eq.mp hbeq)), h.number_iff]
      by_cases hn : n = t.texts.size
      · rw [if_pos hn, hn, Array.getElem?_eq_none (Nat.le_refl _), Option.some.injEq]
        exact iff_of_false nofun heq
      · rw [if_neg hn]

/-- The number of a text leads back to it. -/
theorem Inverse.getElem?_index_intern (h : t.Inverse) (text : String) :
    (t.intern text).2.texts[(t.intern text).1.index]? = some text := by
  cases hl : t.lookup? text with
  | some atom =>
    rw [intern_of_lookup?_eq_some hl]
    exact h.lookup?_eq_some_iff.mp hl
  | none =>
    rw [intern_of_lookup?_eq_none hl]
    exact Array.getElem?_push_size

/-- Numbers and texts stay inverse to each other. -/
theorem Inverse.internAll (h : t.Inverse) (texts : List String) : (t.internAll texts).Inverse := by
  induction texts generalizing t with
  | nil => exact h
  | cons text texts ih => exact ih (h.intern text)

/-- A number keeps its text. -/
theorem getElem?_internAll (h : t.texts[n]? = some text) (texts : List String) :
    (t.internAll texts).texts[n]? = some text := by
  induction texts generalizing t with
  | nil => exact h
  | cons other texts ih => exact ih (getElem?_intern h other)

theorem Inverse.mem_texts_internAll (h : t.Inverse) {texts : List String} :
    text ∈ (t.internAll texts).texts ↔ text ∈ t.texts ∨ text ∈ texts := by
  induction texts generalizing t with
  | nil => simp only [internAll_nil, List.not_mem_nil, or_false]
  | cons other texts ih =>
    rw [internAll_cons, ih (h.intern other), mem_texts_intern h, List.mem_cons, or_assoc]

/-- The table that has the empty text only. -/
theorem inverse_empty : Inverse ⟨#[""], (∅ : Std.HashMap String Nat).insert "" 0⟩ where
  number_iff text n := by
    rw [Std.HashMap.getElem?_insert, Std.HashMap.getElem?_empty]
    cases n with
    | zero => simp
    | succ n => simp
  first := rfl

/-- A new table holds the empty text and the common names, each once. -/
theorem inverse_new : new.Inverse := inverse_empty.internAll common

theorem mem_texts_new : text ∈ new.texts ↔ text = "" ∨ text ∈ common := by
  unfold new
  rw [← internAll, inverse_empty.mem_texts_internAll, List.mem_toArray, List.mem_singleton]

/-- A number that is in the table stands for its text. -/
theorem resolve_of_getElem? {atom : Atom} (h : t.texts[atom.index]? = some text) :
    t.resolve atom = text := by
  rw [resolve, Array.getD_eq_getD_getElem?, h, Option.getD_some]

theorem getElem?_of_lt_size {atom : Atom} (h : atom.index < t.size) :
    t.texts[atom.index]? = some (t.resolve atom) := by
  have hget : t.texts[atom.index]? = some t.texts[atom.index] := Array.getElem?_eq_getElem h
  rw [resolve_of_getElem? hget]
  exact hget

/-- A number keeps its text, whatever enters later. -/
theorem resolve_internAll {atom : Atom} (h : atom.index < t.size) (later : List String) :
    (t.internAll later).resolve atom = t.resolve atom :=
  resolve_of_getElem? (getElem?_internAll (getElem?_of_lt_size h) later)

/-- Two numbers in the table are equal if their texts are. -/
theorem Inverse.eq_iff_resolve_eq (h : t.Inverse) {a b : Atom} (ha : a.index < t.size)
    (hb : b.index < t.size) : a = b ↔ t.resolve a = t.resolve b := by
  constructor
  · intro heq
    rw [heq]
  · intro heq
    have hindex : a.index = b.index :=
      h.index_unique (heq ▸ getElem?_of_lt_size ha) (getElem?_of_lt_size hb)
    cases a
    cases b
    exact congrArg Atom.mk hindex

/-- The number of a text, given out before other texts entered, resolves to it. -/
theorem Inverse.resolve_index_intern (h : t.Inverse) (text : String) (later : List String) :
    ((t.intern text).2.internAll later).resolve (t.intern text).1 = text :=
  resolve_of_getElem? (getElem?_internAll (h.getElem?_index_intern text) later)

/-- Numbers given out at different times are equal if and only if they are those of the same text. -/
theorem Inverse.intern_eq_intern_iff (h : t.Inverse) (text other : String) (later : List String) :
    (((t.intern text).2.internAll later).intern other).1 = (t.intern text).1 ↔ other = text := by
  have hlater : ((t.intern text).2.internAll later).Inverse := (h.intern text).internAll later
  have hother := hlater.getElem?_index_intern other
  have htext : (((t.intern text).2.internAll later).intern other).2.texts[(t.intern text).1.index]? =
      some text := getElem?_intern (getElem?_internAll (h.getElem?_index_intern text) later) other
  constructor
  · intro heq
    rw [heq, htext, Option.some.injEq] at hother
    exact hother.symm
  · intro heq
    rw [heq] at hother htext ⊢
    have hindex := (hlater.intern text).index_unique hother htext
    exact congrArg Atom.mk hindex

/-- In a table that any texts have entered, the texts and their numbers are inverse to each other. Texts
are there once, after the empty one; a number resolves to its text for good, and numbers are equal if and
only if their texts are. The texts with a number are those that entered, and the table grows by each that
is new. -/
theorem internAll_new_bijective (texts : List String) :
    (∀ text atom, (new.internAll texts).lookup? text = some atom ↔
      (new.internAll texts).texts[atom.index]? = some text) ∧
    (new.internAll texts).texts.toList.Nodup ∧
    (new.internAll texts).texts[0]? = some "" ∧
    (∀ text later,
      (((new.internAll texts).intern text).2.internAll later).resolve
        ((new.internAll texts).intern text).1 = text) ∧
    (∀ text other later,
      ((((new.internAll texts).intern text).2.internAll later).intern other).1 =
        ((new.internAll texts).intern text).1 ↔ other = text) ∧
    (∀ a b : Atom, a.index < (new.internAll texts).size → b.index < (new.internAll texts).size →
      (a = b ↔ (new.internAll texts).resolve a = (new.internAll texts).resolve b)) ∧
    (∀ (a : Atom) later, a.index < (new.internAll texts).size →
      ((new.internAll texts).internAll later).resolve a = (new.internAll texts).resolve a) ∧
    (∀ text, ((new.internAll texts).lookup? text).isSome ↔
      text = "" ∨ text ∈ common ∨ text ∈ texts) ∧
    (∀ text, ((new.internAll texts).intern text).2.size =
      if text = "" ∨ text ∈ common ∨ text ∈ texts then (new.internAll texts).size
      else (new.internAll texts).size + 1) := by
  have h : (new.internAll texts).Inverse := inverse_new.internAll texts
  -- Every interned text is empty, common or one of those that were given.
  have hmem (text : String) :
      text ∈ (new.internAll texts).texts ↔ text = "" ∨ text ∈ common ∨ text ∈ texts := by
    rw [inverse_new.mem_texts_internAll, mem_texts_new, or_assoc]
  refine ⟨fun _ _ => h.lookup?_eq_some_iff, h.nodup, h.first, h.resolve_index_intern,
    h.intern_eq_intern_iff, fun _ _ => h.eq_iff_resolve_eq, fun _ later ha => resolve_internAll ha later,
    ?_, ?_⟩
  · intro text
    rw [h.lookup?_isSome_iff, hmem]
  · intro text
    rw [h.size_intern]
    exact if_congr (hmem text) rfl rfl

end KotlinTree.Interner
