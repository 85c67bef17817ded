import Mathlib.Data.List.Infix
import KotlinTree.Token.Basic

/-!
What a scan leaves is an end of the text that it was given, and a token other than the end of the
file takes at least one character.
-/

namespace KotlinTree

/-- Trivia is passed over from the front. -/
theorem Trivia.skipFrom_suffix (context : Trivia.Context) (cs : List Char) :
    Trivia.skipFrom context cs <:+ cs := by
  fun_induction Trivia.skipFrom context cs <;>
    simp_all only [List.suffix_refl, List.suffix_cons_iff, or_true]

theorem Trivia.skip_suffix (cs : List Char) : Trivia.skip cs <:+ cs :=
  Trivia.skipFrom_suffix .blank cs

namespace Literal

theorem closeString_suffix (flags : TokenFlags) (stack : List Enclosure) (cs : List Char) :
    (closeString flags stack cs).2 <:+ cs := by
  fun_induction closeString flags stack cs <;>
    simp_all only [List.suffix_refl, List.suffix_cons_iff, or_true]

theorem closeCharacter_suffix (cs : List Char) : (closeCharacter cs).2 <:+ cs := by
  fun_induction closeCharacter cs <;>
    simp_all only [List.suffix_refl, List.suffix_cons_iff, or_true]

theorem closeBackticks_suffix (cs : List Char) : (closeBackticks cs).2 <:+ cs := by
  fun_induction closeBackticks cs <;>
    simp_all only [List.suffix_refl, List.suffix_cons_iff, or_true]

/-- A string takes its opening quote. -/
theorem string_suffix (c : Char) (cs : List Char) : (string (c :: cs)).2 <:+ cs := by
  unfold string
  split
  · rename_i rest h
    have hr : rest <:+ cs := by
      rw [(List.cons.inj h).2]
      exact (List.suffix_cons _ _).trans (List.suffix_cons _ _)
    exact (closeString_suffix _ _ _).trans hr
  · rename_i rest _ h
    rw [(List.cons.inj h).2]
    exact closeString_suffix _ _ _
  · rename_i h
    exact absurd h (List.cons_ne_nil _ _)

/-- A point that belongs to a number is taken with it. -/
theorem fraction_suffix {cs rest : List Char} (h : fraction cs = some rest) : rest <:+ cs.tail := by
  unfold fraction at h
  split at h
  · split at h
    · rw [← Option.some.inj h]
      exact List.dropWhile_suffix _
    · exact absurd h (by simp)
  · exact absurd h (by simp)

theorem exponent_suffix {cs rest : List Char} (h : exponent cs = some rest) : rest <:+ cs := by
  unfold exponent at h
  grind [List.dropWhile_suffix, List.suffix_cons_iff]

/-- The first digit, or the point before one, belongs to the number. -/
theorem decimal_suffix (c : Char) (cs : List Char)
    (h : c.isDigit ∨ c = '.' ∧ (cs.head?.map Char.isDigit).getD false) :
    (decimal (c :: cs)).2 <:+ cs := by
  have hm : (fraction ((c :: cs).dropWhile isDigitOrGap)).getD
      ((c :: cs).dropWhile isDigitOrGap) <:+ cs := by
    rcases h with hd | ⟨rfl, hd⟩
    · have hw : (c :: cs).dropWhile isDigitOrGap <:+ cs := by
        rw [List.dropWhile_cons_of_pos (by simp [isDigitOrGap, hd])]
        exact List.dropWhile_suffix _
      cases hf : fraction ((c :: cs).dropWhile isDigitOrGap) with
      | none => exact hw
      | some rest => exact (fraction_suffix hf).trans ((List.tail_suffix _).trans hw)
    · rw [List.dropWhile_cons_of_neg (by decide)]
      cases hf : fraction ('.' :: cs) with
      | none => cases cs <;> simp_all [fraction]
      | some rest => exact fraction_suffix hf
  have hs (m : List Char) (h : m <:+ cs) : (exponent m).getD m <:+ cs := by
    cases he : exponent m with
    | none => exact h
    | some rest => exact (exponent_suffix he).trans h
  exact hs _ hm

theorem unsignedSuffix_suffix (flags : TokenFlags) (cs : List Char) :
    (unsignedSuffix flags cs).2 <:+ cs := by
  unfold unsignedSuffix
  grind [List.suffix_cons_iff, List.suffix_refl]

theorem longSuffix_suffix (flags : TokenFlags) (cs : List Char) :
    (longSuffix flags cs).2 <:+ cs := by
  unfold longSuffix
  grind [List.suffix_cons_iff, List.suffix_refl]

theorem suffix_suffix (flags : TokenFlags) (cs : List Char) : (suffix flags cs).2 <:+ cs := by
  have hi : (longSuffix (unsignedSuffix flags cs).1 (unsignedSuffix flags cs).2).2 <:+ cs :=
    (longSuffix_suffix _ _).trans (unsignedSuffix_suffix flags cs)
  unfold suffix
  split
  · split
    · exact List.suffix_cons _ _
    · exact hi
  · exact hi

theorem unsuffixed_suffix (c : Char) (cs : List Char)
    (h : c.isDigit ∨ c = '.' ∧ (cs.head?.map Char.isDigit).getD false) :
    (unsuffixed (c :: cs)).2 <:+ cs := by
  unfold unsuffixed
  split
  · rename_i x rest hc
    obtain ⟨rfl, rfl⟩ := List.cons.inj hc
    split
    · exact (List.dropWhile_suffix _).trans (List.suffix_cons _ _)
    · split
      · exact (List.dropWhile_suffix _).trans (List.suffix_cons _ _)
      · exact decimal_suffix _ _ h
  · exact decimal_suffix _ _ h

/-- A number takes its first character. -/
theorem number_suffix (c : Char) (cs : List Char)
    (h : c.isDigit ∨ c = '.' ∧ (cs.head?.map Char.isDigit).getD false) :
    (number (c :: cs)).2 <:+ cs :=
  (suffix_suffix _ _).trans (unsuffixed_suffix c cs h)

end Literal

namespace Token

theorem isPrefixOf?_suffix {front cs rest : List Char} (hf : front ≠ [])
    (h : front.isPrefixOf? cs = some rest) : rest <:+ cs.tail := by
  have he := List.isPrefixOf?_eq_some_iff_append_eq.mp h
  cases front with
  | nil => exact absurd rfl hf
  | cons c front =>
    rw [← he]
    exact List.suffix_append front rest

theorem isNamePart_of_isNameStart {c : Char} (h : isNameStart c) : isNamePart c := by
  simp only [isNameStart, isNamePart, Text.isAlphanumeric, Bool.or_eq_true] at h ⊢
  rcases h with h | h
  · exact Or.inl h
  · exact Or.inr (Or.inl h)

/-- A word takes its first character. -/
theorem word_suffix (c : Char) (cs : List Char) (h : isNameStart c) :
    (word (c :: cs)).rest <:+ cs := by
  have hd : (c :: cs).dropWhile isNamePart <:+ cs := by
    rw [List.dropWhile_cons_of_pos (isNamePart_of_isNameStart h)]
    exact List.dropWhile_suffix _
  unfold word
  split
  · dsimp only
    split
    · rename_i rest hr
      rw [hr] at hd
      exact (List.suffix_cons _ _).trans hd
    · exact hd
  · exact hd
  · exact hd

/-- The first of some signs takes a character of its own. -/
theorem signAmong_suffix {kinds : List TokenKind} {cs : List Char} {l : Lexeme}
    (hk : ∀ k ∈ kinds, (k.text?.getD "").toList ≠ []) (h : signAmong kinds cs = some l) :
    l.rest <:+ cs.tail := by
  induction kinds with
  | nil => exact absurd h (by simp [signAmong])
  | cons kind kinds ih =>
    unfold signAmong at h
    split at h
    · rename_i rest hp
      rw [← Option.some.inj h]
      exact isPrefixOf?_suffix (hk kind (by simp)) hp
    · exact ih (fun k hm => hk k (by simp [hm])) h

theorem negated_suffix {kind : TokenKind} {cs : List Char} {l : Lexeme}
    (hk : (kind.text?.getD "").toList ≠ []) (h : negated kind cs = some l) :
    l.rest <:+ cs.tail := by
  unfold negated at h
  split at h
  · rename_i rest hp
    split at h
    · exact absurd h (by simp)
    · rw [← Option.some.inj h]
      exact isPrefixOf?_suffix hk hp
  · exact absurd h (by simp)

/-- A sign, or a character that starts no token, takes a character. -/
theorem sign_suffix (c : Char) (cs : List Char) : (sign (c :: cs)).rest <:+ cs := by
  have hs : ∀ k ∈ signs, (k.text?.getD "").toList ≠ [] := by decide
  unfold sign
  cases hi : negated .notIsKeyword (c :: cs) with
  | some l => exact negated_suffix (by decide) hi
  | none =>
    cases hn : negated .notInKeyword (c :: cs) with
    | some l => exact negated_suffix (by decide) hn
    | none =>
      cases ha : signAmong signs (c :: cs) with
      | some l => exact signAmong_suffix hs ha
      | none => exact List.suffix_refl cs

/-- A token takes the first character of a text that starts with no trivia. -/
theorem lexeme_suffix (c : Char) (cs : List Char) : (lexeme (c :: cs)).rest <:+ cs := by
  unfold lexeme
  dsimp only
  split
  · exact Literal.string_suffix c cs
  · split
    · exact Literal.closeCharacter_suffix cs
    · split
      · exact Literal.closeBackticks_suffix cs
      · split
        · rename_i hd
          exact Literal.number_suffix c cs (Or.inl hd)
        · split
          · rename_i hp
            exact Literal.number_suffix c cs (Or.inr hp)
          · split
            · rename_i hw
              exact word_suffix c cs hw
            · exact sign_suffix c cs

/-- The kinds of words. -/
def wordKinds : List TokenKind :=
  [.identifier, .asKeyword, .asSafeKeyword] ++ TokenKind.keywords.map Prod.snd

/-- The kinds of signs, negated keywords among them, and of what starts no token. -/
def signKinds : List TokenKind := [.unknown, .notIsKeyword, .notInKeyword] ++ signs

theorem keyword?_mem_wordKinds {text : String} {kind : TokenKind}
    (h : TokenKind.keyword? text = some kind) : kind ∈ wordKinds := by
  unfold TokenKind.keyword? at h
  rw [List.lookup_eq_some_iff] at h
  obtain ⟨before, after, he, -⟩ := h
  refine List.mem_append_right _ (List.mem_map.mpr ⟨(text, kind), ?_, rfl⟩)
  simp [he]

theorem word_kind_mem (cs : List Char) : (word cs).kind ∈ wordKinds := by
  have has : .asKeyword ∈ wordKinds ∧ .asSafeKeyword ∈ wordKinds := by decide
  unfold word
  split
  · dsimp only
    split
    · exact has.2
    · exact has.1
  · rename_i kind _ hk
    exact keyword?_mem_wordKinds hk
  · exact List.mem_cons_self

theorem signAmong_kind_mem {kinds : List TokenKind} {cs : List Char} {l : Lexeme}
    (h : signAmong kinds cs = some l) : l.kind ∈ kinds := by
  induction kinds with
  | nil => exact absurd h (by simp [signAmong])
  | cons kind kinds ih =>
    unfold signAmong at h
    split at h
    · rw [← Option.some.inj h]
      exact List.mem_cons_self
    · exact List.mem_cons_of_mem _ (ih h)

theorem negated_kind {kind : TokenKind} {cs : List Char} {l : Lexeme}
    (h : negated kind cs = some l) : l.kind = kind := by
  unfold negated at h
  split at h
  · split at h
    · exact absurd h (by simp)
    · rw [← Option.some.inj h]
  · exact absurd h (by simp)

theorem sign_kind_mem (cs : List Char) : (sign cs).kind ∈ signKinds := by
  unfold sign
  cases hi : negated .notIsKeyword cs with
  | some l => simp [negated_kind hi, signKinds]
  | none =>
    cases hn : negated .notInKeyword cs with
    | some l => simp [negated_kind hn, signKinds]
    | none =>
      cases ha : signAmong signs cs with
      | some l => exact List.mem_append_right _ (signAmong_kind_mem ha)
      | none => simp [signKinds]

/-- Only an empty text is the end of the file. -/
theorem lexeme_kind_eq_endOfFile_iff (cs : List Char) :
    (lexeme cs).kind = .endOfFile ↔ cs = [] := by
  cases cs with
  | nil => simp [lexeme]
  | cons c cs =>
    have hn : (lexeme (c :: cs)).kind ≠ .endOfFile := by
      unfold lexeme
      dsimp only
      -- literals are of a kind that is written out, so words and signs are left
      split_ifs <;> try exact TokenKind.noConfusion
      · exact ne_of_mem_of_not_mem (word_kind_mem _) (by decide)
      · exact ne_of_mem_of_not_mem (sign_kind_mem _) (by decide)
    exact iff_of_false hn (List.cons_ne_nil c cs)

/-- What is a string starts with a quote, and ends where the string does. -/
theorem lexeme_of_stringLiteral {cs : List Char} (h : (lexeme cs).kind = .stringLiteral) :
    ∃ tail, cs = '"' :: tail ∧ (lexeme cs).flags = (Literal.string cs).1 ∧
      (lexeme cs).rest = (Literal.string cs).2 := by
  cases cs with
  | nil => cases h
  | cons c cs =>
    unfold lexeme at h ⊢
    dsimp only at h ⊢
    split_ifs at h ⊢ with hc
    · exact ⟨cs, by rw [hc], rfl, rfl⟩
    · exact absurd (h ▸ word_kind_mem _) (by decide)
    · exact absurd (h ▸ sign_kind_mem _) (by decide)

/-- What is a number starts with a digit or with a point before one, and ends where the number does. -/
theorem lexeme_of_numericLiteral {cs : List Char} (h : (lexeme cs).kind = .numericLiteral) :
    (∃ c tail, cs = c :: tail ∧
      (c.isDigit ∨ c = '.' ∧ (tail.head?.map Char.isDigit).getD false)) ∧
      (lexeme cs).flags = (Literal.number cs).1 ∧ (lexeme cs).rest = (Literal.number cs).2 := by
  cases cs with
  | nil => cases h
  | cons c cs =>
    unfold lexeme at h ⊢
    dsimp only at h ⊢
    split_ifs at h ⊢ with _ _ _ hdigit hpoint
    all_goals try cases h
    · exact ⟨⟨c, cs, rfl, .inl hdigit⟩, rfl, rfl⟩
    · exact ⟨⟨c, cs, rfl, .inr hpoint⟩, rfl, rfl⟩
    · exact absurd (h ▸ word_kind_mem _) (by decide)
    · exact absurd (h ▸ sign_kind_mem _) (by decide)

end Token

end KotlinTree
