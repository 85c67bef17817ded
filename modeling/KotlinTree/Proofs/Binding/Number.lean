import Mathlib.Data.List.TakeWhile
import KotlinTree.Binding.Signature
import KotlinTree.Proofs.Grammar.Text
import KotlinTree.Proofs.Grammar.Unit
import KotlinTree.Proofs.Token.Partition

/-!
Numbers, which are read twice: once from left to right when a source is scanned, and once by their text
alone when the type of a literal is looked up. Main statement: the type of each number is what the scan has
noted, but for a binary number with the suffix of a float, which is an integer by its text.
-/

namespace KotlinTree

/-- The class of a number by what the scan has noted. -/
def TokenFlags.numberClass (flags : TokenFlags) : String :=
  if flags.longSuffix then "kotlin.Long"
  else if flags.floatSuffix then "kotlin.Float"
  else if flags.floating then "kotlin.Double"
  else "kotlin.Int"

namespace Literal

/-- What may stand for the fraction of a number. -/
def IsFraction (cs : List Char) : Prop :=
  cs = [] ∨ ∃ digits, cs = '.' :: digits ∧ ∀ d ∈ digits, isDigitOrGap d = true

/-- What may stand for the exponent of a number. -/
def IsExponent (cs : List Char) : Prop :=
  cs = [] ∨ ∃ e sign digits, cs = e :: (sign ++ digits) ∧ (e = 'e' ∨ e = 'E') ∧
    (∀ s ∈ sign, s = '+' ∨ s = '-') ∧ ∀ d ∈ digits, isDigitOrGap d = true

/-- How a number is spelled up to its suffix, and what is noted of it. -/
inductive Spells : TokenFlags → List Char → Prop
  | hexadecimal {x : Char} {digits : List Char} (hx : x = 'x' ∨ x = 'X')
      (hd : ∀ d ∈ digits, isHexDigitOrGap d = true) :
      Spells { hexadecimal := true } ('0' :: x :: digits)
  | binary {x : Char} {digits : List Char} (hx : x = 'b' ∨ x = 'B')
      (hd : ∀ d ∈ digits, isBinaryDigitOrGap d = true) :
      Spells { binary := true } ('0' :: x :: digits)
  | decimal {whole fractional scale : List Char} (hw : ∀ d ∈ whole, isDigitOrGap d = true)
      (hf : IsFraction fractional) (hs : IsExponent scale) :
      Spells { floating := !(fractional.isEmpty && scale.isEmpty) } (whole ++ fractional ++ scale)

/-- A suffix, and what is noted of a number with it. -/
inductive Suffixes (flags : TokenFlags) : List Char → TokenFlags → Prop
  | none : Suffixes flags [] flags
  | unsigned {c : Char} (hc : c = 'u' ∨ c = 'U') :
      Suffixes flags [c] { flags with unsignedSuffix := true }
  | long : Suffixes flags ['L'] { flags with longSuffix := true }
  | unsignedLong {c : Char} (hc : c = 'u' ∨ c = 'U') :
      Suffixes flags [c, 'L'] { flags with unsignedSuffix := true, longSuffix := true }
  | float {c : Char} (hc : c = 'f' ∨ c = 'F') (hex : flags.hexadecimal = false) :
      Suffixes flags [c] { flags with floating := true, floatSuffix := true }

theorem fraction_spells (cs : List Char) : ∃ front, IsFraction front ∧
    (fraction cs).isSome = !front.isEmpty ∧ cs = front ++ (fraction cs).getD cs := by
  have hnone : ∃ front, IsFraction front ∧ (none : Option (List Char)).isSome = !front.isEmpty ∧
      cs = front ++ cs := ⟨[], .inl rfl, rfl, rfl⟩
  unfold fraction
  split
  · rename_i d rest
    split
    · refine ⟨'.' :: (d :: rest).takeWhile isDigitOrGap,
        .inr ⟨_, rfl, fun _ => List.mem_takeWhile_imp⟩, rfl, ?_⟩
      rw [Option.getD_some, List.cons_append, List.takeWhile_append_dropWhile]
    · exact hnone
  · exact hnone

theorem exponent_spells (cs : List Char) : ∃ front, IsExponent front ∧
    (exponent cs).isSome = !front.isEmpty ∧ cs = front ++ (exponent cs).getD cs := by
  -- Two outcomes are all there are: no exponent, or a letter, a sign that may be missing, and digits.
  have hnone : ∃ front, IsExponent front ∧ (none : Option (List Char)).isSome = !front.isEmpty ∧
      cs = front ++ cs := ⟨[], .inl rfl, rfl, rfl⟩
  have hsome (e : Char) (sign unsigned : List Char) (he : e = 'e' ∨ e = 'E')
      (hsign : ∀ s ∈ sign, s = '+' ∨ s = '-') (hcs : cs = e :: (sign ++ unsigned)) :
      ∃ front, IsExponent front ∧
        (some (unsigned.dropWhile isDigitOrGap)).isSome = !front.isEmpty ∧
        cs = front ++ (some (unsigned.dropWhile isDigitOrGap)).getD cs := by
    refine ⟨e :: (sign ++ unsigned.takeWhile isDigitOrGap),
      .inr ⟨e, sign, _, rfl, he, hsign, fun _ => List.mem_takeWhile_imp⟩, rfl, ?_⟩
    rw [Option.getD_some, List.cons_append, List.append_assoc, List.takeWhile_append_dropWhile, hcs]
  unfold exponent
  cases cs with
  | nil => exact hnone
  | cons e rest =>
    dsimp only
    split
    · rename_i he
      cases rest with
      | nil => exact hnone
      | cons s digits =>
        dsimp only
        by_cases hs : s = '+' ∨ s = '-'
        · rw [if_pos hs]
          cases digits with
          | nil => exact hnone
          | cons d digits =>
            dsimp only
            split
            · exact hsome e [s] (d :: digits) he (by simpa using hs) rfl
            · exact hnone
        · rw [if_neg hs]
          dsimp only
          split
          · exact hsome e [] (s :: digits) he (by simp) rfl
          · exact hnone
    · exact hnone

theorem decimal_spells (cs : List Char) :
    ∃ front, Spells (decimal cs).1 front ∧ cs = front ++ (decimal cs).2 := by
  have hwhole := List.takeWhile_append_dropWhile (p := isDigitOrGap) (l := cs)
  obtain ⟨fractional, hf, hfsome, hfrest⟩ := fraction_spells (cs.dropWhile isDigitOrGap)
  obtain ⟨scale, hs, hssome, hsrest⟩ := exponent_spells
    ((fraction (cs.dropWhile isDigitOrGap)).getD (cs.dropWhile isDigitOrGap))
  refine ⟨cs.takeWhile isDigitOrGap ++ fractional ++ scale, ?_, ?_⟩
  · have hfloating : ((fraction (cs.dropWhile isDigitOrGap)).isSome || (exponent
        ((fraction (cs.dropWhile isDigitOrGap)).getD (cs.dropWhile isDigitOrGap))).isSome) =
          !(fractional.isEmpty && scale.isEmpty) := by
      rw [hfsome, hssome, Bool.not_and]
    unfold decimal
    dsimp only
    rw [hfloating]
    exact .decimal (fun _ => List.mem_takeWhile_imp) hf hs
  · unfold decimal
    dsimp only
    rw [List.append_assoc, List.append_assoc, ← hsrest, ← hfrest, hwhole]

theorem unsuffixed_spells (cs : List Char) :
    ∃ front, Spells (unsuffixed cs).1 front ∧ cs = front ++ (unsuffixed cs).2 := by
  unfold unsuffixed
  split
  · rename_i x rest
    split
    · rename_i hx
      refine ⟨_, .hexadecimal hx fun d (hd : d ∈ rest.takeWhile _) => List.mem_takeWhile_imp hd, ?_⟩
      dsimp only
      rw [List.cons_append, List.cons_append, List.takeWhile_append_dropWhile]
    · split
      · rename_i hx
        refine ⟨_, .binary hx fun d (hd : d ∈ rest.takeWhile _) => List.mem_takeWhile_imp hd, ?_⟩
        dsimp only
        rw [List.cons_append, List.cons_append, List.takeWhile_append_dropWhile]
      · exact decimal_spells _
  · exact decimal_spells _

theorem longSuffix_suffixes (flags : TokenFlags) (cs : List Char) :
    longSuffix flags cs = (flags, cs) ∨
      ∃ rest, cs = 'L' :: rest ∧ longSuffix flags cs = ({ flags with longSuffix := true }, rest) := by
  unfold longSuffix
  split
  · rename_i c rest
    split
    · rename_i hc
      exact .inr ⟨rest, by rw [hc], rfl⟩
    · exact .inl rfl
  · exact .inl rfl

theorem integral_suffixes (flags : TokenFlags) (cs : List Char) :
    ∃ front, cs = front ++ (longSuffix (unsignedSuffix flags cs).1 (unsignedSuffix flags cs).2).2 ∧
      Suffixes flags front (longSuffix (unsignedSuffix flags cs).1 (unsignedSuffix flags cs).2).1 := by
  have hplain : ∃ front, cs = front ++ (longSuffix flags cs).2 ∧
      Suffixes flags front (longSuffix flags cs).1 := by
    rcases longSuffix_suffixes flags cs with h | ⟨rest, hcs, h⟩ <;> rw [h]
    · exact ⟨[], rfl, .none⟩
    · exact ⟨['L'], hcs, .long⟩
  unfold unsignedSuffix
  split
  · rename_i c rest
    split
    · rename_i hc
      dsimp only
      rcases longSuffix_suffixes { flags with unsignedSuffix := true } rest with h | ⟨rest', hcs, h⟩ <;>
        rw [h]
      · exact ⟨[c], rfl, .unsigned hc⟩
      · exact ⟨[c, 'L'], by rw [hcs]; rfl, .unsignedLong hc⟩
    · exact hplain
  · exact hplain

theorem suffix_suffixes (flags : TokenFlags) (cs : List Char) :
    ∃ front, cs = front ++ (suffix flags cs).2 ∧ Suffixes flags front (suffix flags cs).1 := by
  have hintegral := integral_suffixes flags cs
  unfold suffix
  split
  · rename_i c rest
    split
    · rename_i hc
      exact ⟨[c], rfl, .float hc.1 hc.2⟩
    · exact hintegral
  · exact hintegral

/-- A number is a spelling and a suffix. -/
theorem number_spells (cs : List Char) : ∃ flags front back, Spells flags front ∧
    Suffixes flags back (number cs).1 ∧ cs = front ++ back ++ (number cs).2 := by
  obtain ⟨front, hfront, hcs⟩ := unsuffixed_spells cs
  obtain ⟨back, hback, hsuffix⟩ := suffix_suffixes (unsuffixed cs).1 (unsuffixed cs).2
  refine ⟨(unsuffixed cs).1, front, back, hfront, hsuffix, ?_⟩
  unfold number
  dsimp only
  rw [List.append_assoc, ← hback]
  exact hcs

/-- The text of a number without capital letters. -/
def lower (cs : List Char) : List Char := cs.map Char.toLower

/-- A number that is read with another radix than ten, by its text. -/
def hasRadix (cs : List Char) : Bool := "0x".toList.isPrefixOf cs || "0b".toList.isPrefixOf cs

/-- The class of a number by its text without capital letters. -/
def classOfLower (cs : List Char) : String :=
  if cs.getLast? = some 'l' then "kotlin.Long"
  else if !hasRadix cs && cs.getLast? = some 'f' then "kotlin.Float"
  else if !hasRadix cs && (cs.contains '.' || cs.contains 'e') then "kotlin.Double"
  else "kotlin.Int"

theorem numberClass_ofList (cs : List Char) :
    numberClass (String.ofList cs) = classOfLower (lower cs) := by
  unfold numberClass
  rw [String.toList_ofList]
  rfl

theorem lower_append (front back : List Char) : lower (front ++ back) = lower front ++ lower back :=
  List.map_append

/-- What holds of all characters of one byte holds of the digits of any radix. -/
theorem digit_induction {p : Char → Prop} (hall : ∀ n < 128, p (Char.ofNat n)) {c : Char}
    (h : isHexDigitOrGap c = true) : p c := by
  have hsmall : c.toNat ≤ 'f'.toNat := by
    simp only [isHexDigitOrGap, isDigitOrGap, Char.isDigit, Bool.or_eq_true, Bool.and_eq_true,
      decide_eq_true_eq] at h
    rcases h with ((⟨-, h⟩ | rfl) | ⟨-, h⟩) | ⟨-, h⟩
    · exact Nat.le_trans (UInt32.le_iff_toNat_le.mp h) (by decide)
    · decide
    · exact UInt32.le_iff_toNat_le.mp h
    · exact Nat.le_trans (UInt32.le_iff_toNat_le.mp h) (by decide)
  have hc := hall c.toNat (Nat.lt_of_le_of_lt hsmall (by decide))
  rwa [Char.ofNat_toNat] at hc

theorem isHexDigitOrGap_of_isDigitOrGap {c : Char} (h : isDigitOrGap c = true) :
    isHexDigitOrGap c = true := by
  simp [isHexDigitOrGap, h]

theorem isDigitOrGap_of_isBinaryDigitOrGap {c : Char} (h : isBinaryDigitOrGap c = true) :
    isDigitOrGap c = true := by
  simp only [isBinaryDigitOrGap, Bool.or_eq_true, decide_eq_true_eq] at h
  rcases h with (rfl | rfl) | rfl <;> decide

theorem toLower_mem_of_isHexDigitOrGap {c : Char} (h : isHexDigitOrGap c = true) :
    c.toLower ∈ "0123456789abcdef_".toList := by
  refine digit_induction (p := fun c => isHexDigitOrGap c = true → c.toLower ∈ _) ?_ h h
  decide +kernel

theorem toLower_mem_of_isDigitOrGap {c : Char} (h : isDigitOrGap c = true) :
    c.toLower ∈ "0123456789_".toList := by
  refine digit_induction (p := fun c => isDigitOrGap c = true → c.toLower ∈ _) ?_
    (isHexDigitOrGap_of_isDigitOrGap h) h
  decide +kernel

/-- No number starts like one with a radix unless a letter for a radix is in it. -/
theorem hasRadix_eq_false {cs : List Char} (hx : 'x' ∉ cs) (hb : 'b' ∉ cs) : hasRadix cs = false := by
  have hmem (c : Char) (h : ['0', c].isPrefixOf cs = true) : c ∈ cs :=
    (List.isPrefixOf_iff_prefix.mp h).subset (by simp)
  refine Bool.or_eq_false_iff.mpr ⟨?_, ?_⟩ <;> refine Bool.eq_false_iff.mpr fun h => ?_
  · exact hx (hmem 'x' h)
  · exact hb (hmem 'b' h)

/-- What the text of a number says without its suffix. -/
structure Tells (flags : TokenFlags) (cs : List Char) : Prop where
  unsuffixed : flags.longSuffix = false ∧ flags.floatSuffix = false
  noLong : 'l' ∉ cs
  radix : ∀ back, 'x' ∉ back → 'b' ∉ back →
    hasRadix (cs ++ back) = (flags.hexadecimal || flags.binary)
  whole : (flags.hexadecimal || flags.binary) = true → flags.floating = false
  noFloat : (flags.hexadecimal || flags.binary) = false → 'f' ∉ cs
  floating : (flags.hexadecimal || flags.binary) = false →
    (cs.contains '.' || cs.contains 'e') = flags.floating

theorem lower_subset {cs all : List Char} (h : ∀ c ∈ cs, c.toLower ∈ all) : lower cs ⊆ all := by
  intro c hc
  obtain ⟨d, hd, rfl⟩ := List.mem_map.mp hc
  exact h d hd

/-- Whatever its digits, a number with a letter for its radix is whole. -/
theorem tells_radix {flags : TokenFlags} {letter : Char} {digits : List Char}
    (hsuffix : flags.longSuffix = false ∧ flags.floatSuffix = false) (hwhole : flags.floating = false)
    (hradix : (flags.hexadecimal || flags.binary) = true) (hletter : letter = 'x' ∨ letter = 'b')
    (hdigits : lower digits ⊆ "0123456789abcdef_".toList) :
    Tells flags ('0' :: letter :: lower digits) where
  unsuffixed := hsuffix
  noLong h := by
    rcases hletter with rfl | rfl <;> simp only [List.mem_cons, Char.reduceEq, false_or] at h <;>
      exact absurd (hdigits h) (by decide)
  radix back _ _ := by
    rw [hradix]
    rcases hletter with rfl | rfl <;> rfl
  whole _ := hwhole
  noFloat h := absurd (hradix.symm.trans h) Bool.noConfusion
  floating h := absurd (hradix.symm.trans h) Bool.noConfusion

theorem tells_hexadecimal {x : Char} {digits : List Char} (hx : x = 'x' ∨ x = 'X')
    (hd : ∀ d ∈ digits, isHexDigitOrGap d = true) :
    Tells { hexadecimal := true } (lower ('0' :: x :: digits)) := by
  have hletter : lower ('0' :: x :: digits) = '0' :: 'x' :: lower digits := by
    rcases hx with rfl | rfl <;> rfl
  rw [hletter]
  exact tells_radix ⟨rfl, rfl⟩ rfl rfl (.inl rfl)
    (lower_subset fun d hmem => toLower_mem_of_isHexDigitOrGap (hd d hmem))

theorem tells_binary {x : Char} {digits : List Char} (hx : x = 'b' ∨ x = 'B')
    (hd : ∀ d ∈ digits, isBinaryDigitOrGap d = true) :
    Tells { binary := true } (lower ('0' :: x :: digits)) := by
  have hletter : lower ('0' :: x :: digits) = '0' :: 'b' :: lower digits := by
    rcases hx with rfl | rfl <;> rfl
  rw [hletter]
  refine tells_radix ⟨rfl, rfl⟩ rfl rfl (.inr rfl) (lower_subset fun d hmem => ?_)
  exact toLower_mem_of_isHexDigitOrGap
    (isHexDigitOrGap_of_isDigitOrGap (isDigitOrGap_of_isBinaryDigitOrGap (hd d hmem)))

/-- Letters and signs in numbers of radix ten are those of exponents. -/
theorem decimal_letters {whole fractional scale : List Char}
    (hw : ∀ d ∈ whole, isDigitOrGap d = true) (hf : IsFraction fractional) (hs : IsExponent scale) :
    lower (whole ++ fractional ++ scale) ⊆ "0123456789_.e+-".toList := by
  have hdigit {ds : List Char} (hds : ∀ d ∈ ds, isDigitOrGap d = true) :
      ∀ d ∈ ds, d.toLower ∈ "0123456789_.e+-".toList := by
    have hmore : "0123456789_".toList ⊆ "0123456789_.e+-".toList := by decide
    exact fun d hmem => hmore (toLower_mem_of_isDigitOrGap (hds d hmem))
  refine lower_subset fun c hc => ?_
  -- Whole part, fraction and exponent have letters of their own, all of them in the list.
  rcases List.mem_append.mp hc with hc | hc
  · rcases List.mem_append.mp hc with hc | hc
    · exact hdigit hw c hc
    · rcases hf with rfl | ⟨ds, rfl, hds⟩
      · cases hc
      · rcases List.mem_cons.mp hc with rfl | hc
        · decide
        · exact hdigit hds c hc
  · rcases hs with rfl | ⟨e, sign, ds, rfl, he, hsign, hds⟩
    · cases hc
    · rcases List.mem_cons.mp hc with rfl | hc
      · rcases he with rfl | rfl <;> decide
      · rcases List.mem_append.mp hc with hc | hc
        · rcases hsign c hc with rfl | rfl <;> decide
        · exact hdigit hds c hc

theorem tells_decimal {whole fractional scale : List Char}
    (hw : ∀ d ∈ whole, isDigitOrGap d = true) (hf : IsFraction fractional) (hs : IsExponent scale) :
    Tells { floating := !(fractional.isEmpty && scale.isEmpty) }
      (lower (whole ++ fractional ++ scale)) := by
  have hletters := decimal_letters hw hf hs
  have hnot {c : Char} (hc : c ∉ "0123456789_.e+-".toList) :
      c ∉ lower (whole ++ fractional ++ scale) := fun h => hc (hletters h)
  -- The letters of radixes and suffixes are none of these; a point or an `e` is there with its part only.
  refine ⟨⟨rfl, rfl⟩, hnot (by decide), fun back hx hb => ?_, nofun, fun _ => hnot (by decide),
    fun _ => ?_⟩
  · refine hasRadix_eq_false (fun h => ?_) fun h => ?_
    · exact (List.mem_append.mp h).elim (hnot (by decide)) hx
    · exact (List.mem_append.mp h).elim (hnot (by decide)) hb
  · have hdigits := lower_subset fun d hmem => toLower_mem_of_isDigitOrGap (hw d hmem)
    have hplain (c : Char) (hc : c ∉ "0123456789_".toList) : c ∉ lower whole :=
      fun h => hc (hdigits h)
    rw [lower_append, lower_append]
    rcases hf with rfl | ⟨ds, rfl, -⟩
    · rcases hs with rfl | ⟨e, sign, es, rfl, he, -, -⟩
      · rw [show lower [] = [] from rfl]
        simp [hplain '.' (by decide), hplain 'e' (by decide)]
      · rcases he with rfl | rfl <;> simp [lower]
    · simp [lower]

theorem Spells.tells {flags : TokenFlags} {front : List Char} (h : Spells flags front) :
    Tells flags (lower front) := by
  cases h with
  | hexadecimal hx hd => exact tells_hexadecimal hx hd
  | binary hx hd => exact tells_binary hx hd
  | decimal hw hf hs => exact tells_decimal hw hf hs

/-- Without the suffix of a long or a float, a fraction or an exponent decides. -/
theorem Tells.classOfLower {flags : TokenFlags} {cs back : List Char} (h : Tells flags cs)
    (hback : back = [] ∨ back = ['u']) : classOfLower (cs ++ back) =
      if flags.floating then "kotlin.Double" else "kotlin.Int" := by
  have hlast {c : Char} (hc : c ∉ cs) (hu : c ≠ 'u') : (cs ++ back).getLast? ≠ some c := by
    intro hlast
    have hmem := List.mem_of_getLast? hlast
    rcases hback with rfl | rfl <;> simp_all
  have hsame : ((cs ++ back).contains '.' || (cs ++ back).contains 'e') =
      (cs.contains '.' || cs.contains 'e') := by
    rcases hback with rfl | rfl <;> simp
  have hradix : hasRadix (cs ++ back) = (flags.hexadecimal || flags.binary) := by
    refine h.radix back ?_ ?_ <;> rcases hback with rfl | rfl <;> decide
  unfold Literal.classOfLower
  rw [if_neg (hlast h.noLong (by decide)), hradix, hsame]
  cases hkind : flags.hexadecimal || flags.binary with
  | true => simp [h.whole hkind]
  | false =>
    have hfloat : (cs ++ back).getLast? ≠ some 'f' := hlast (h.noFloat hkind) (by decide)
    rw [h.floating hkind, decide_eq_false hfloat]
    rfl

/-- The class of a number by its text is what the scan has noted, but for one that is binary. -/
theorem numberClass_spelled {flags flags' : TokenFlags} {front back : List Char}
    (h : Spells flags front) (hs : Suffixes flags back flags') :
    numberClass (String.ofList (front ++ back)) =
      if flags'.binary && flags'.floatSuffix then "kotlin.Int" else flags'.numberClass := by
  have htells := h.tells
  obtain ⟨hlong, hfloat⟩ := htells.unsuffixed
  rw [numberClass_ofList, lower_append]
  -- By the suffix: what stands last in the text decides, unless a radix keeps `f` from being a suffix.
  cases hs with
  | none =>
    rw [show lower [] = [] from rfl, htells.classOfLower (.inl rfl)]
    simp [TokenFlags.numberClass, hlong, hfloat]
  | @unsigned c hc =>
    have hlast : lower [c] = ['u'] := by rcases hc with rfl | rfl <;> rfl
    rw [htells.classOfLower (.inr hlast)]
    simp [TokenFlags.numberClass, hlong, hfloat]
  | long =>
    have hlast : lower ['L'] = ['l'] := rfl
    rw [hlast]
    simp [classOfLower, TokenFlags.numberClass, hfloat]
  | @unsignedLong c hc =>
    have hlast : lower [c, 'L'] = ['u', 'l'] := by rcases hc with rfl | rfl <;> rfl
    rw [hlast]
    simp [classOfLower, TokenFlags.numberClass, hfloat]
  | @float c hc hex =>
    have hlast : lower [c] = ['f'] := by rcases hc with rfl | rfl <;> rfl
    have hradix := htells.radix ['f'] (by decide) (by decide)
    rw [hex, Bool.false_or] at hradix
    rw [hlast]
    cases hbinary : flags.binary <;>
      simp [classOfLower, TokenFlags.numberClass, hlong, hradix, hbinary]

end Literal

theorem Token.numberClass_text {source : String} {t : Token} (ht : t ∈ ofSource source)
    (hkind : t.kind = .numericLiteral) : numberClass t.text =
      if t.flags.binary && t.flags.floatSuffix then "kotlin.Int" else t.flags.numberClass := by
  obtain ⟨-, cs, -, -, hkind', hflags, htext⟩ := exists_lexeme_of_mem ht
  obtain ⟨-, hflags', hrest⟩ := lexeme_of_numericLiteral (hkind'.trans hkind)
  obtain ⟨flags, front, back, hfront, hback, hcs⟩ := Literal.number_spells cs
  have hsame : t.text.toList = front ++ back := by
    rw [hrest] at htext
    exact List.append_cancel_right (htext.trans hcs)
  rw [← String.ofList_toList (s := t.text), hsame, Literal.numberClass_spelled hfront hback, ← hflags,
    hflags']

namespace ParsedUnit

/-- Each token but the end of the file is a leaf in the end. -/
theorem exists_isLeafOf (fileName source : String) {t : Token} (ht : t ∈ Token.ofSource source)
    (hend : t.isEnd = false) : ∃ i k, Grammar.TakenAs k t ∧
      (ofSource fileName source).forest.IsLeafOf i k t := by
  obtain ⟨s, q, hb, -, hforest, stop, hstop⟩ := Grammar.ofSource_builds fileName source
  have hlinked : (Grammar.State.ofSource fileName source).forest.Linked :=
    Grammar.forest_ofSource fileName source ▸ Forest.linked_empty
  have htokens := Grammar.tokens_ofSource fileName source
  rcases hb.takes hlinked (htokens ▸ ht) with hahead | hleaf
  · rw [hstop] at hahead
    rw [List.mem_singleton.mp hahead] at hend
    cases hend
  · rwa [hforest] at hleaf

/-- Each number of a source is a leaf, and the type of this leaf is what the scan of the number has noted:
a suffix, or else a fraction or an exponent. Only a binary number is an integer whatever its suffix says,
unless that is the suffix of a long. -/
theorem literalType?_number (fileName source : String) (t : Token) (ht : t ∈ Token.ofSource source)
    (hkind : t.kind = .numericLiteral) :
    (∃ i, (ofSource fileName source).forest.IsLeafOf i .numericLiteral t) ∧
      ∀ i, (ofSource fileName source).forest.IsLeafOf i .numericLiteral t →
        (ofSource fileName source).forest.literalType? (some i) =
          some (.of (if t.flags.binary && t.flags.floatSuffix then "kotlin.Int"
            else t.flags.numberClass)) := by
  have hend : t.isEnd = false := by
    rw [Token.isEnd, hkind]
    rfl
  obtain ⟨i, k, htaken, hleaf⟩ := exists_isLeafOf fileName source ht hend
  have hk : k = .numericLiteral := by
    rcases htaken with rfl | ⟨-, hname⟩
    · exact hkind
    · rw [hkind] at hname
      cases hname
  refine ⟨⟨i, hk ▸ hleaf⟩, fun j hj => ?_⟩
  obtain ⟨atom, hsays⟩ := hj.leaf?
  unfold Forest.literalType? Forest.leafText
  rw [hj.kind?, hsays]
  exact congrArg (fun name => some (Ty.of name)) (Token.numberClass_text ht hkind)

/-- A binary number whose suffix is that of a float. -/
theorem literalType?_number_binary :
    ∃ t ∈ Token.ofSource "0b1f", t.flags.floatSuffix ∧ t.flags.numberClass = "kotlin.Float" ∧
      ∃ i, (ofSource "a.kt" "0b1f").forest.literalType? (some i) = some (.of "kotlin.Int") := by
  have htoken : ∃ t ∈ Token.ofSource "0b1f", t.kind = .numericLiteral ∧ t.flags.binary = true ∧
      t.flags.floatSuffix = true ∧ t.flags.numberClass = "kotlin.Float" := by decide +kernel
  obtain ⟨t, ht, hkind, hbinary, hfloat, hclass⟩ := htoken
  obtain ⟨⟨i, hi⟩, htype⟩ := literalType?_number "a.kt" "0b1f" t ht hkind
  refine ⟨t, ht, hfloat, hclass, i, ?_⟩
  rw [htype i hi, hbinary, hfloat, Bool.and_self, if_pos rfl]

end ParsedUnit

end KotlinTree
