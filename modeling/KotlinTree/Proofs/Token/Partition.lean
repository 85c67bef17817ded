import Mathlib.Data.List.Chain
import KotlinTree.Proofs.Token.Suffix

/-!
The tokens of a source cut it into consecutive parts: each token with the trivia before it begins
where the one before ends, and only the last, the end of the file, may be without a text. Scans in a
row come to the end of the file after no more tokens than the source has bytes, and the tokens on the
way partition the source: nothing is left out, nothing is taken twice, and every place that a token
gives lies between two characters. What reads like a word that is no keyword is an identifier.
-/

namespace KotlinTree

/-- The number of bytes before some place between the characters of a text, or at its ends. -/
def Text.IsPlace (text : String) (n : Nat) : Prop :=
  ∃ before after : String, before ++ after = text ∧ before.utf8ByteSize = n

/-- A place in a text is not after its end. -/
theorem Text.IsPlace.le_size {text : String} {n : Nat} (h : Text.IsPlace text n) :
    n ≤ text.utf8ByteSize := by
  obtain ⟨before, after, rfl, rfl⟩ := h
  rw [String.utf8ByteSize_append]
  omega

namespace Token

/-- The text of a token with the trivia before it. -/
def written (t : Token) : String := t.leading ++ t.text

theorem stop_eq (t : Token) : t.stop = t.start + t.written.utf8ByteSize := by
  simp only [stop, place, written, String.utf8ByteSize_append]
  omega

theorem start_le_place (t : Token) : t.start ≤ t.place := Nat.le_add_right _ _

theorem place_le_stop (t : Token) : t.place ≤ t.stop := Nat.le_add_right _ _

/-- Tokens cut a text that begins at some byte, the last of them being the end of the file. -/
inductive Cuts : Nat → String → List Token → Prop
  | last {t : Token} (hend : t.isEnd = true) (htext : t.text = "") : Cuts t.start t.leading [t]
  | next {t : Token} {rest : String} {ts : List Token} (hend : t.isEnd = false)
      (htext : t.text ≠ "") (h : Cuts t.stop rest ts) : Cuts t.start (t.written ++ rest) (t :: ts)

theorem Cuts.endAt (place : Nat) : Cuts place "" [.endAt place] :=
  Cuts.last (t := .endAt place) rfl rfl

theorem Cuts.ne_nil {start : Nat} {text : String} {ts : List Token} (h : Cuts start text ts) :
    ts ≠ [] := by
  cases h <;> exact List.cons_ne_nil _ _

/-- Nothing of the text is lost. -/
theorem Cuts.written_eq {start : Nat} {text : String} {ts : List Token} (h : Cuts start text ts) :
    String.join (ts.map written) = text := by
  induction h with
  | last _ htext => simp [written, htext, String.join_cons]
  | next _ _ _ ih => rw [List.map_cons, String.join_cons, ih]

theorem Cuts.text_ne {start : Nat} {text : String} {ts : List Token} (h : Cuts start text ts) :
    ∀ t ∈ ts, t.isEnd = false → t.text ≠ "" := by
  induction h with
  | last hend _ =>
    intro t ht he
    rw [List.mem_singleton.mp ht, hend] at he
    exact absurd he (by decide)
  | next _ htext _ ih =>
    intro t ht he
    rcases List.mem_cons.mp ht with rfl | ht
    · exact htext
    · exact ih t ht he

/-- What comes before a rest, and the rest, make up the text. -/
theorem before_append {cs rest : List Char} (h : rest <:+ cs) : before cs rest ++ rest = cs := by
  obtain ⟨front, rfl⟩ := h
  simp [before]

/-- What comes before a shorter rest is not empty. -/
theorem before_ne_nil {cs rest : List Char} (h : rest.length < cs.length) :
    before cs rest ≠ [] := by
  intro hb
  have hl := congrArg List.length hb
  simp only [before, List.length_take, List.length_nil] at hl
  omega

/-- What follows a lexeme is the end of the text. -/
theorem lexeme_rest_suffix (cs : List Char) : (lexeme cs).rest <:+ cs := by
  cases cs with
  | nil => exact List.suffix_refl []
  | cons c cs => exact (lexeme_suffix c cs).trans (List.suffix_cons c cs)

/-- A token and what follows it make up the text that was scanned. -/
theorem scan_written (start : Nat) (cs : List Char) :
    (scan start cs).1.written ++ String.ofList (scan start cs).2 = String.ofList cs := by
  have hs := before_append (Trivia.skip_suffix cs)
  have hl := before_append (lexeme_rest_suffix (Trivia.skip cs))
  simp only [scan, written, ← String.ofList_append]
  rw [List.append_assoc, hl, hs]

/-- A token is the end if nothing but trivia is left. -/
theorem scan_isEnd_iff (start : Nat) (cs : List Char) :
    (scan start cs).1.isEnd = true ↔ Trivia.skip cs = [] := by
  unfold isEnd
  rw [decide_eq_true_iff]
  exact lexeme_kind_eq_endOfFile_iff _

/-- A token before the end of the file takes a character of its own. -/
theorem scan_progress {start : Nat} {cs : List Char} (h : (scan start cs).1.isEnd = false) :
    (scan start cs).2.length < cs.length ∧ (scan start cs).1.text ≠ "" := by
  cases hb : Trivia.skip cs with
  | nil => simp [(scan_isEnd_iff start cs).mpr hb] at h
  | cons c body =>
    have hlt : (lexeme (c :: body)).rest.length < (c :: body).length :=
      Nat.lt_succ_of_le (lexeme_suffix c body).length_le
    have hle : (c :: body).length ≤ cs.length := hb ▸ (Trivia.skip_suffix cs).length_le
    simp only [scan, hb]
    refine ⟨by omega, ?_⟩
    intro he
    exact before_ne_nil hlt (by simpa using he)

/-- The end of the file leaves nothing and has no text. -/
theorem scan_end {start : Nat} {cs : List Char} (h : (scan start cs).1.isEnd = true) :
    (scan start cs).1.text = "" ∧ (scan start cs).1.leading = String.ofList cs := by
  have hb := (scan_isEnd_iff start cs).mp h
  have hs := before_append (Trivia.skip_suffix cs)
  rw [hb, List.append_nil] at hs
  constructor
  · simp [scan, hb, before]
  · simp only [scan, hb, hs]

/-- Enough steps come to the end of the file. -/
theorem scanUpTo_cuts {count : Nat} {cs : List Char} (start : Nat) (h : cs.length ≤ count) :
    Cuts start (String.ofList cs) (scanUpTo count start cs) := by
  induction count generalizing start cs with
  | zero =>
    -- No step is left, but no character is either: the scan of nothing is the end of the file.
    obtain rfl : cs = [] := List.length_eq_zero_iff.mp (Nat.le_zero.mp h)
    exact Cuts.last (t := (scan start []).1) rfl rfl
  | succ count ih =>
    simp only [scanUpTo]
    cases he : (scan start cs).1.isEnd with
    | true =>
      obtain ⟨htext, hleading⟩ := scan_end he
      rw [if_pos rfl, ← hleading]
      exact Cuts.last (t := (scan start cs).1) he htext
    | false =>
      -- A token takes a character, so one step less is enough for the rest.
      obtain ⟨hlt, htext⟩ := scan_progress he
      rw [if_neg Bool.false_ne_true, ← scan_written start cs]
      exact Cuts.next he htext (ih _ (by omega))

/-- The tokens of a source cut it from its first byte on. -/
theorem ofSource_cuts (source : String) : Cuts 0 source (ofSource source) := by
  have h : Cuts 0 (String.ofList source.toList) (ofSource source) := scanUpTo_cuts 0 le_rfl
  rwa [String.ofList_toList] at h

/-- The tokens of `count` scans in a row, each from where the one before ended. -/
def calls : Nat → Nat → List Char → List Token
  | 0, _, _ => []
  | count + 1, start, cs =>
    (scan start cs).1 :: calls count (scan start cs).1.stop (scan start cs).2

/-- Tokens that partition a source, the end of the file being the last of them. -/
structure Partition (source : String) (ts : List Token) : Prop where
  /-- The last token is the end of the file, and no token before it is. -/
  ended : ∃ earlier last, ts = earlier ++ [last] ∧ last.isEnd = true ∧
    ∀ t ∈ earlier, t.isEnd = false
  /-- The first token begins with the source. -/
  first : ∀ t ∈ ts.head?, t.start = 0
  /-- Each token begins where the one before ends. -/
  consecutive : ts.IsChain fun t u => u.start = t.stop
  ordered : ∀ t ∈ ts, t.start ≤ t.place ∧ t.place ≤ t.stop ∧ t.stop ≤ source.utf8ByteSize
  progress : ∀ t ∈ ts, t.isEnd = false → t.place < t.stop
  /-- Every offset is a boundary between characters. -/
  places : ∀ t ∈ ts,
    Text.IsPlace source t.start ∧ Text.IsPlace source t.place ∧ Text.IsPlace source t.stop
  /-- What a token holds is the part of the source at its offsets. -/
  slices : ∀ t ∈ ts, ∃ before after : String,
    before.utf8ByteSize = t.start ∧ before ++ t.leading ++ t.text ++ after = source
  written : String.join (ts.map written) = source

/-- The last token of a source is the end of the file. Only trivia comes before it, from the end of the
token before on. -/
structure Closes (source : String) (earlier : List Token) (last : Token) : Prop where
  tokens : ofSource source = earlier ++ [last]
  real : ∀ t ∈ earlier, t.isEnd = false
  ended : last.isEnd = true
  text : last.text = ""
  written : String.join (earlier.map written) ++ last.leading = source
  trivia : Trivia.skip last.leading.toList = []

/-- The first token starts where the text does. -/
theorem Cuts.start_of_mem_head? {start : Nat} {text : String} {ts : List Token}
    (h : Cuts start text ts) : ∀ t ∈ ts.head?, t.start = start := by
  cases h <;> simp

theorem Cuts.consecutive {start : Nat} {text : String} {ts : List Token}
    (h : Cuts start text ts) : ts.IsChain fun t u => u.start = t.stop := by
  induction h with
  | last _ _ => exact List.isChain_singleton _
  | next _ _ h ih => exact List.isChain_cons.mpr ⟨h.start_of_mem_head?, ih⟩

/-- The end of the file comes last, and nowhere before. -/
theorem Cuts.ended {start : Nat} {text : String} {ts : List Token} (h : Cuts start text ts) :
    ∃ earlier last, ts = earlier ++ [last] ∧ last.isEnd = true ∧
      ∀ t ∈ earlier, t.isEnd = false := by
  induction h with
  | @last t hend _ => exact ⟨[], t, rfl, hend, by simp⟩
  | @next t _ _ hend _ _ ih =>
    obtain ⟨earlier, last, rfl, hlast, hearlier⟩ := ih
    refine ⟨t :: earlier, last, rfl, hlast, ?_⟩
    intro u hu
    rcases List.mem_cons.mp hu with rfl | hu
    · exact hend
    · exact hearlier u hu

/-- Each token holds the part of the text at its offsets. The text before the cut is a parameter,
since it grows with every token that the induction passes. -/
theorem Cuts.slices {start : Nat} {text : String} {ts : List Token} (h : Cuts start text ts)
    (front : String) (hfront : front.utf8ByteSize = start) :
    ∀ t ∈ ts, ∃ before after : String,
      before.utf8ByteSize = t.start ∧ before ++ t.leading ++ t.text ++ after = front ++ text := by
  induction h generalizing front with
  | last _ htext =>
    intro t ht
    obtain rfl := List.mem_singleton.mp ht
    exact ⟨front, "", hfront, by rw [htext, String.append_empty, String.append_empty]⟩
  | @next t rest _ _ _ _ ih =>
    intro u hu
    rcases List.mem_cons.mp hu with rfl | hu
    · exact ⟨front, rest, hfront, by simp only [Token.written, String.append_assoc]⟩
    · have hsize : (front ++ t.written).utf8ByteSize = t.stop := by
        rw [String.utf8ByteSize_append, hfront, stop_eq]
      rw [← String.append_assoc]
      exact ih (front ++ t.written) hsize u hu

/-- A token before the end of the file takes at least one byte. -/
theorem Cuts.length_le {start : Nat} {text : String} {ts : List Token} (h : Cuts start text ts) :
    ts.length ≤ text.utf8ByteSize + 1 := by
  induction h with
  | last _ _ => simp
  | @next t _ _ _ htext _ ih =>
    have hpos : 0 < t.text.utf8ByteSize := by
      rw [Nat.pos_iff_ne_zero, Ne, String.utf8ByteSize_eq_zero_iff]
      exact htext
    simp only [List.length_cons, Token.written, String.utf8ByteSize_append]
    omega

/-- Cuts of a source are a partition of it. -/
theorem Cuts.partition {source : String} {ts : List Token} (h : Cuts 0 source ts) :
    Partition source ts := by
  -- A token starts after all that has been cut off before it.
  have hslices : ∀ t ∈ ts, ∃ before after : String,
      before.utf8ByteSize = t.start ∧ before ++ t.leading ++ t.text ++ after = source := by
    simpa only [String.empty_append] using h.slices "" rfl
  have hplaces : ∀ t ∈ ts, Text.IsPlace source t.start ∧ Text.IsPlace source t.place ∧
      Text.IsPlace source t.stop := by
    intro t ht
    obtain ⟨before, after, hbefore, hsource⟩ := hslices t ht
    refine ⟨⟨before, t.leading ++ t.text ++ after, ?_, hbefore⟩,
      ⟨before ++ t.leading, t.text ++ after, ?_, ?_⟩,
      ⟨before ++ t.leading ++ t.text, after, hsource, ?_⟩⟩
    · rw [← hsource]
      simp only [String.append_assoc]
    · rw [← hsource]
      simp only [String.append_assoc]
    · rw [String.utf8ByteSize_append, hbefore, place]
    · rw [String.utf8ByteSize_append, String.utf8ByteSize_append, hbefore, stop, place]
  exact {
    ended := h.ended
    first := h.start_of_mem_head?
    consecutive := h.consecutive
    ordered := fun t ht => ⟨t.start_le_place, t.place_le_stop, (hplaces t ht).2.2.le_size⟩
    progress := by
      intro t ht hend
      have hpos : 0 < t.text.utf8ByteSize := by
        rw [Nat.pos_iff_ne_zero, Ne, String.utf8ByteSize_eq_zero_iff]
        exact h.text_ne t ht hend
      simp only [stop]
      omega
    places := hplaces
    slices := hslices
    written := h.written_eq }

/-- The tokens of a source are what scans in a row give, as many as there are tokens. -/
theorem scanUpTo_eq_calls (count start : Nat) (cs : List Char) :
    scanUpTo count start cs = calls (scanUpTo count start cs).length start cs := by
  induction count generalizing start cs with
  | zero => rfl
  | succ count ih =>
    simp only [scanUpTo]
    split
    · rfl
    · rw [List.length_cons, calls, ← ih]

/-- Scans in a row come to the end of the file after at most one call more than the source has
bytes, and up to there their tokens partition the source. -/
theorem calls_partition (source : String) :
    ∃ count ≤ source.utf8ByteSize + 1, Partition source (calls count 0 source.toList) := by
  have hcuts := ofSource_cuts source
  refine ⟨(ofSource source).length, hcuts.length_le, ?_⟩
  rw [ofSource, ← scanUpTo_eq_calls]
  exact hcuts.partition

/-- Every token is what a scan gives where the token starts. -/
theorem exists_scan_of_mem_calls {count start : Nat} {cs : List Char} {t : Token}
    (h : t ∈ calls count start cs) : ∃ front rest, front ++ rest = cs ∧
      start + (String.ofList front).utf8ByteSize = t.start ∧ (scan t.start rest).1 = t := by
  induction count generalizing start cs with
  | zero => exact absurd h List.not_mem_nil
  | succ count ih =>
    rcases List.mem_cons.mp h with rfl | h
    · exact ⟨[], cs, rfl, by simp [scan], rfl⟩
    · obtain ⟨front, rest, hfront, hstart, hscan⟩ := ih h
      have hwritten := congrArg String.toList (scan_written start cs)
      rw [String.toList_append, String.toList_ofList, String.toList_ofList, ← hfront,
        ← List.append_assoc] at hwritten
      refine ⟨_, rest, hwritten, ?_, hscan⟩
      rw [String.ofList_append, String.utf8ByteSize_append, String.ofList_toList, ← Nat.add_assoc,
        ← hstart, stop_eq]
      rfl

/-- A token has been scanned at some place, from what follows it. -/
theorem exists_scan_of_mem {count start : Nat} {cs : List Char} {t : Token}
    (h : t ∈ scanUpTo count start cs) : ∃ front rest, front ++ rest = cs ∧
      start + (String.ofList front).utf8ByteSize = t.start ∧ (scan t.start rest).1 = t := by
  rw [scanUpTo_eq_calls] at h
  exact exists_scan_of_mem_calls h

/-- A token of a source is what the source reads like at the token's place. -/
theorem exists_lexeme_of_mem {source : String} {t : Token} (ht : t ∈ ofSource source) :
    ∃ (front : String) (cs : List Char), front ++ String.ofList cs = source ∧
      front.utf8ByteSize = t.place ∧ (lexeme cs).kind = t.kind ∧ (lexeme cs).flags = t.flags ∧
      t.text.toList ++ (lexeme cs).rest = cs := by
  obtain ⟨front, rest, hfront, hstart, hscan⟩ := exists_scan_of_mem ht
  have hleading := before_append (Trivia.skip_suffix rest)
  refine ⟨String.ofList front ++ t.leading, Trivia.skip rest, ?_, ?_, ?_, ?_, ?_⟩
  · rw [← hscan, String.append_assoc]
    simp only [scan, ← String.ofList_append]
    rw [hleading, hfront, String.ofList_toList]
  · rw [String.utf8ByteSize_append, place, ← hstart, Nat.zero_add]
  · rw [← hscan]
    rfl
  · rw [← hscan]
    rfl
  · rw [← hscan]
    simp only [scan, String.toList_ofList]
    exact before_append (lexeme_rest_suffix _)

/-- Every source has a last token, which is its end. -/
theorem exists_closes (source : String) : ∃ earlier last, Closes source earlier last := by
  have hcuts := ofSource_cuts source
  obtain ⟨earlier, last, htokens, hlast, hearlier⟩ := hcuts.ended
  have hmem : last ∈ ofSource source := by
    rw [htokens]
    exact List.mem_append_right _ (List.mem_singleton_self last)
  obtain ⟨_, cs, -, -, hscan⟩ := exists_scan_of_mem hmem
  rw [← hscan] at hlast
  obtain ⟨htext, hleading⟩ := scan_end hlast
  have hskip := (scan_isEnd_iff last.start cs).mp hlast
  rw [hscan] at htext hleading hlast
  refine ⟨earlier, last, htokens, hearlier, hlast, htext, ?_, ?_⟩
  · have hwritten := hcuts.written_eq
    rw [htokens, List.map_append, String.join_append] at hwritten
    simpa [Token.written, htext] using hwritten
  · rw [hleading, String.toList_ofList]
    exact hskip

example : (calls 3 0 "/**/ é".toList).map (fun t => (t.start, t.place, t.stop)) =
    [(0, 5, 7), (7, 7, 7), (7, 7, 7)] := by decide +kernel

end Token

/-- Letters only, the first of which tells the word from other tokens, and no keyword. -/
structure IsPlainWord (w : String) : Prop where
  start : ∃ c cs, w.toList = c :: cs ∧ c.isLower = true ∧ Token.isNameStart c = true
  parts : ∀ c ∈ w.toList, Token.isNamePart c = true
  noKeyword : TokenKind.keyword? w = none

namespace Token

/-- What starts with a small letter is a word. -/
theorem lexeme_of_isLower {c : Char} {cs : List Char} (hlower : c.isLower = true)
    (hstart : isNameStart c = true) : lexeme (c :: cs) = word (c :: cs) := by
  have hquotes : c ≠ '"' ∧ c ≠ '\x27' ∧ c ≠ '`' ∧ c ≠ '.' := by
    refine ⟨?_, ?_, ?_, ?_⟩ <;> (rintro rfl; revert hlower; decide)
  have hdigit : c.isDigit = false := by
    have hle : 'a'.val ≤ c.val := of_decide_eq_true (Bool.and_eq_true_iff.mp hlower).1
    refine Bool.and_eq_false_iff.mpr (.inr (decide_eq_false fun hdigit => ?_))
    exact absurd (UInt32.le_trans hle hdigit) (by decide)
  simp [lexeme, hquotes, hdigit, hstart]

/-- The front of a text, as far as a word goes that the text begins with. -/
theorem before_dropWhile (p : Char → Bool) (cs : List Char) :
    before cs (cs.dropWhile p) = cs.takeWhile p := by
  have htake := List.prefix_iff_eq_take.mp (List.takeWhile_prefix p (l := cs))
  have hlength := congrArg List.length (List.takeWhile_append_dropWhile (p := p) (l := cs))
  rw [List.length_append] at hlength
  rw [before, ← hlength, Nat.add_sub_cancel, ← htake]

/-- A text from whose front a plain word is taken begins with an identifier. -/
theorem word_kind_of_before {w : String} {cs : List Char} (hw : IsPlainWord w)
    (h : before cs (word cs).rest = w.toList) : (word cs).kind = .identifier := by
  have hkeyword {k : TokenKind} (hrest : before cs (cs.dropWhile isNamePart) = w.toList) :
      TokenKind.keyword? (String.ofList (cs.takeWhile isNamePart)) ≠ some k := by
    rw [before_dropWhile] at hrest
    rw [hrest, String.ofList_toList, hw.noKeyword]
    exact Option.some_ne_none k ∘ Eq.symm
  simp only [word] at h ⊢
  split at h
  · -- Only `as` goes on with a sign, which is no part of a word.
    rename_i hkey
    split at h
    · rename_i rest hrest
      have hmem : '?' ∈ w.toList := by
        have hsplit := List.takeWhile_append_dropWhile (p := isNamePart) (l := cs)
        rw [hrest, List.append_cons] at hsplit
        have hfront := before_append (List.suffix_append (cs.takeWhile isNamePart ++ ['?']) rest)
        rw [hsplit, h] at hfront
        rw [List.append_cancel_right (hfront.trans hsplit.symm)]
        exact List.mem_append_right _ (List.mem_singleton_self _)
      exact absurd (hw.parts _ hmem) (by decide +kernel)
    · exact absurd hkey (hkeyword h)
  · rename_i hkey
    exact absurd hkey (hkeyword h)
  · rfl

/-- What is written as a plain word is an identifier. -/
theorem scan_kind_of_text {w : String} (hw : IsPlainWord w) {start : Nat} {cs : List Char}
    (h : (scan start cs).1.text = w) : (scan start cs).1.kind = .identifier := by
  obtain ⟨c, tail, hsplit, hlower, hstart⟩ := hw.start
  have htaken : before (Trivia.skip cs) (lexeme (Trivia.skip cs)).rest = w.toList := by
    rw [← h]
    exact String.toList_ofList.symm
  have hbody := before_append (lexeme_rest_suffix (Trivia.skip cs))
  rw [htaken, hsplit, List.cons_append] at hbody
  have hword : lexeme (c :: (tail ++ (lexeme (Trivia.skip cs)).rest)) = _ :=
    lexeme_of_isLower hlower hstart
  rw [hbody] at hword
  rw [hword] at htaken
  have hkind := word_kind_of_before hw htaken
  rw [← hword] at hkind
  exact hkind

theorem scanUpTo_kind_of_text {w : String} (hw : IsPlainWord w) {count start : Nat} {cs : List Char}
    {t : Token} (ht : t ∈ scanUpTo count start cs) (h : t.text = w) : t.kind = .identifier := by
  induction count generalizing start cs with
  | zero =>
    obtain rfl := List.mem_singleton.mp ht
    exact scan_kind_of_text hw h
  | succ count ih =>
    simp only [scanUpTo] at ht
    split at ht
    · obtain rfl := List.mem_singleton.mp ht
      exact scan_kind_of_text hw h
    · rcases List.mem_cons.mp ht with rfl | ht
      · exact scan_kind_of_text hw h
      · exact ih ht

/-- A token of a source that reads like a word that is no keyword is an identifier. -/
theorem kind_of_text {source w : String} (hw : IsPlainWord w) {t : Token} (ht : t ∈ ofSource source)
    (h : t.text = w) : t.kind = .identifier := scanUpTo_kind_of_text hw ht h

end Token

theorem isPlainWord_suspend : IsPlainWord "suspend" where
  start := ⟨'s', ['u', 's', 'p', 'e', 'n', 'd'], by decide +kernel, by decide, by decide +kernel⟩
  parts := List.all_eq_true.mp (by decide +kernel)
  noKeyword := by decide +kernel

theorem isPlainWord_out : IsPlainWord "out" where
  start := ⟨'o', ['u', 't'], by decide +kernel, by decide, by decide +kernel⟩
  parts := List.all_eq_true.mp (by decide +kernel)
  noKeyword := by decide +kernel

end KotlinTree
