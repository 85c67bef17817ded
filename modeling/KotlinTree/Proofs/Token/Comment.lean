import KotlinTree.Proofs.Token.Partition
import KotlinTree.Proofs.Token.Trivia

/-!
The comments in the trivia before a token. Main statement: the trivia of a token, cut out of its source,
splits into the very comments that the scan stepped over in the source, and blanks (`comments_leading`).

The scan for comments and the scan that steps over trivia are not the same: one passes over whatever
is no comment, the other stops there. Both are compared with the parts that the trivia consists of.
-/

namespace KotlinTree

namespace Trivia

open Text

/-- Whether the part is a block comment, if it is a comment. -/
def Part.isBlock? : Part → Option Bool
  | .blank _ => none
  | .line _ => some false
  | .block _ => some true

/-- The comments among parts that are written from a place on. -/
def placed (place : Nat) : List Part → List Comment
  | [] => []
  | part :: parts =>
    let stop := place + byteSize part.text
    match part.isBlock? with
    | some isBlock => ⟨⟨place, stop⟩, isBlock⟩ :: placed stop parts
    | none => placed stop parts

/-- The comments that are stepped over in a source from a place on. -/
def SteppedOver (source : String) (place : Nat) (comments : List Comment) : Prop :=
  ∃ front cs parts, front ++ cs = source.toList ∧ byteSize front = place ∧
    Passes cs parts (skip cs) ∧ placed place parts = comments

/-- A comment further on. -/
def Comment.shift (m : Comment) (bytes : Nat) : Comment :=
  ⟨⟨m.span.start + bytes, m.span.stop + bytes⟩, m.isBlock⟩

/-- The two characters that open a comment. -/
def Comment.opener (m : Comment) : List Char := if m.isBlock then ['/', '*'] else ['/', '/']

/-- Comments that a text splits into, with nothing but blanks between them. -/
structure Separates (text : String) (comments : List Comment) : Prop where
  ordered : comments.Pairwise fun m n => m.span.stop ≤ n.span.start
  within : ∀ m ∈ comments, m.span.start < m.span.stop ∧ m.span.stop ≤ text.utf8ByteSize
  opened : ∀ m ∈ comments, m.opener <+: (m.span.text text).toList
  /-- A byte outside the comments is a blank. -/
  blank : ∀ place < text.utf8ByteSize, (∀ m ∈ comments, m.span.contains place = false) →
    ∃ front c back, text.toList = front ++ c :: back ∧ byteSize front = place ∧ isBlank c = true

theorem commentsFrom_blank {start place : Nat} {c : Char} {cs : List Char} (hc : isBlank c) :
    commentsFrom start place .blank (c :: cs) =
      commentsFrom start (place + c.utf8Size) .blank cs := by
  have hslash : c ≠ '/' := by
    rintro rfl
    exact absurd hc (by decide)
  rw [commentsFrom]
  · intro rest hcs
    exact absurd hcs hslash
  · intro rest hcs
    exact absurd hcs hslash

theorem commentsFrom_line_append {start place : Nat} {body rest : List Char}
    (hbody : ∀ c ∈ body, isLineEnd c = false) :
    commentsFrom start place .line (body ++ rest) =
      commentsFrom start (place + byteSize body) .line rest := by
  induction body generalizing place with
  | nil => rfl
  | cons c body ih =>
    obtain ⟨hc, hrest⟩ := List.forall_mem_cons.mp hbody
    calc commentsFrom start place .line (c :: (body ++ rest))
        = commentsFrom start (place + c.utf8Size) .line (body ++ rest) := by simp [commentsFrom, hc]
      _ = commentsFrom start (place + c.utf8Size + byteSize body) .line rest := ih hrest
      _ = commentsFrom start (place + byteSize (c :: body)) .line rest := by
        rw [byteSize_cons, Nat.add_assoc]

/-- A line comment ends at the end of its line, which is a blank after it. -/
theorem commentsFrom_line_of_head {start place : Nat} {cs : List Char}
    (h : ∀ c ∈ cs.head?, isLineEnd c = true) : commentsFrom start place .line cs =
      ⟨⟨start, place⟩, false⟩ :: commentsFrom start place .blank cs := by
  cases cs with
  | nil => rfl
  | cons c cs =>
    have hc : isLineEnd c = true := h c rfl
    rw [commentsFrom_blank (isBlank_of_isLineEnd hc)]
    simp [commentsFrom, hc]

/-- The scan inside a block comment; at depth zero the comment ends. -/
def commentsInside (start place : Nat) : Nat → List Char → List Comment
  | 0, cs => ⟨⟨start, place⟩, true⟩ :: commentsFrom start place .blank cs
  | depth + 1, cs => commentsFrom start place (.block (depth + 1)) cs

theorem Nested.commentsInside_append {start place depth last : Nat} {body rest : List Char}
    (h : Nested depth body last) (hrest : last = 0 ∨ rest = []) :
    commentsInside start place depth (body ++ rest) =
      commentsInside start (place + byteSize body) last rest := by
  refine h.scanFrom (f := commentsInside start) ?_ ?_ ?_ hrest place
  · intro place depth cs
    rfl
  · intro place depth cs
    cases depth with
    | zero => rfl
    | succ depth => simp [commentsInside, commentsFrom]
  · intro place depth c cs hopener hcloser
    change commentsFrom start place (.block (depth + 1)) (c :: cs) = _
    rw [commentsFrom]
    · rfl
    · rintro rest rfl rfl
      exact hopener ⟨rest, rfl⟩
    · rintro rest rfl rfl
      exact hcloser ⟨rest, rfl⟩

/-- The comments of a text are those among the parts that it consists of. -/
theorem Delimited.commentsFrom_written {parts : List Part} (h : Delimited parts) (start place : Nat) :
    commentsFrom start place .blank (written parts) = placed place parts := by
  -- Each part is passed over as a whole, and leaves a comment unless it is white space.
  induction h generalizing start place with
  | nil => rfl
  | @blank c parts hc _ ih =>
    calc commentsFrom start place .blank (c :: written parts)
        = commentsFrom start (place + c.utf8Size) .blank (written parts) := commentsFrom_blank hc
      _ = placed (place + byteSize [c]) parts := ih _ _
  | @line body parts hbody hend _ ih =>
    have hsize : place + byteSize ('/' :: '/' :: body) = place + 2 + byteSize body :=
      byteSize_pair rfl rfl place body
    calc commentsFrom start place .blank ('/' :: '/' :: (body ++ written parts))
        = commentsFrom place (place + 2) .line (body ++ written parts) := rfl
      _ = commentsFrom place (place + 2 + byteSize body) .line (written parts) :=
        commentsFrom_line_append hbody
      _ = ⟨⟨place, place + 2 + byteSize body⟩, false⟩ ::
          commentsFrom place (place + 2 + byteSize body) .blank (written parts) :=
        commentsFrom_line_of_head hend.head?
      _ = placed place (.line body :: parts) := by
        rw [ih, ← hsize]
        rfl
  | @block body parts hbody _ ih =>
    have hsize : place + byteSize ('/' :: '*' :: body) = place + 2 + byteSize body :=
      byteSize_pair rfl rfl place body
    calc commentsFrom start place .blank ('/' :: '*' :: (body ++ written parts))
        = commentsInside place (place + 2) 1 (body ++ written parts) := rfl
      _ = commentsInside place (place + 2 + byteSize body) 0 (written parts) :=
        hbody.commentsInside_append (Or.inl rfl)
      _ = ⟨⟨place, place + 2 + byteSize body⟩, true⟩ ::
          commentsFrom place (place + 2 + byteSize body) .blank (written parts) := rfl
      _ = placed place (.block body :: parts) := by
        rw [ih, ← hsize]
        rfl
  | @unclosed body depth hbody =>
    have hsize : place + byteSize ('/' :: '*' :: body) = place + 2 + byteSize body :=
      byteSize_pair rfl rfl place body
    calc commentsFrom start place .blank ('/' :: '*' :: (body ++ []))
        = commentsInside place (place + 2) 1 (body ++ []) := rfl
      _ = commentsInside place (place + 2 + byteSize body) (depth + 1) [] :=
        hbody.commentsInside_append (Or.inr rfl)
      _ = [⟨⟨place, place + 2 + byteSize body⟩, true⟩] := rfl
      _ = placed place [.block body] := by
        rw [← hsize]
        rfl

section
variable {place : Nat} {parts : List Part} {m : Comment}

/-- A comment is where the part that it is has been written. -/
theorem exists_of_mem_placed (h : m ∈ placed place parts) :
    ∃ before part after, parts = before ++ part :: after ∧ part.isBlock? = some m.isBlock ∧
      m.span.start = place + byteSize (written before) ∧
      m.span.stop = m.span.start + byteSize part.text := by
  induction parts generalizing place with
  | nil => exact absurd h List.not_mem_nil
  | cons part parts ih =>
    -- A comment further on stands behind one part more.
    have hlater (h : m ∈ placed (place + byteSize part.text) parts) :
        ∃ before part' after, part :: parts = before ++ part' :: after ∧
          part'.isBlock? = some m.isBlock ∧ m.span.start = place + byteSize (written before) ∧
          m.span.stop = m.span.start + byteSize part'.text := by
      obtain ⟨before, part', after, rfl, hblock, hstart, hstop⟩ := ih h
      refine ⟨part :: before, part', after, rfl, hblock, ?_, hstop⟩
      rw [hstart, written_cons, byteSize_append, Nat.add_assoc]
    unfold placed at h
    cases hpart : part.isBlock? with
    | none =>
      simp only [hpart] at h
      exact hlater h
    | some isBlock =>
      simp only [hpart] at h
      rcases List.mem_cons.mp h with rfl | h
      · exact ⟨[], part, parts, rfl, hpart, rfl, rfl⟩
      · exact hlater h

theorem placed_pairwise (place : Nat) (parts : List Part) :
    (placed place parts).Pairwise fun m n => m.span.stop ≤ n.span.start := by
  induction parts generalizing place with
  | nil => exact List.Pairwise.nil
  | cons part parts ih =>
    unfold placed
    cases part.isBlock? with
    | none => exact ih _
    | some isBlock =>
      apply List.Pairwise.cons _ (ih _)
      intro n hn
      obtain ⟨before, -, -, -, -, hstart, -⟩ := exists_of_mem_placed hn
      rw [hstart]
      exact Nat.le_add_right _ _

theorem placed_shift (place bytes : Nat) (parts : List Part) :
    (placed place parts).map (·.shift bytes) = placed (place + bytes) parts := by
  induction parts generalizing place with
  | nil => rfl
  | cons part parts ih =>
    have hstop : place + bytes + byteSize part.text = place + byteSize part.text + bytes := by omega
    unfold placed
    cases part.isBlock? with
    | none =>
      simp only [hstop]
      exact ih _
    | some isBlock =>
      simp only [List.map_cons, hstop, ih]
      rfl

theorem mem_placed_cons {part : Part} (h : m ∈ placed (place + byteSize part.text) parts) :
    m ∈ placed place (part :: parts) := by
  unfold placed
  cases part.isBlock? with
  | none => exact h
  | some isBlock => exact List.mem_cons_of_mem _ h

/-- A comment starts with the two characters that open one of its kind. -/
theorem Part.opener_prefix {part : Part} (h : part.isBlock? = some m.isBlock) :
    m.opener <+: part.text := by
  cases part with
  | blank c => exact absurd h (by simp [isBlock?])
  | line body =>
    have hkind : m.isBlock = false := (Option.some.inj h).symm
    simp [Comment.opener, hkind, text]
  | block body =>
    have hkind : m.isBlock = true := (Option.some.inj h).symm
    simp [Comment.opener, hkind, text]

theorem two_le_byteSize_opener (m : Comment) : byteSize m.opener = 2 := by
  unfold Comment.opener
  split
  · rfl
  · rfl

theorem utf8Size_of_isBlank {c : Char} (hc : isBlank c) : c.utf8Size = 1 := by
  simp only [isBlank, Bool.or_eq_true, decide_eq_true_eq] at hc
  rcases hc with (((rfl | rfl) | rfl) | rfl) | rfl <;> rfl

theorem written_append (parts later : List Part) :
    written (parts ++ later) = written parts ++ written later := List.flatMap_append

/-- A byte of the parts outside their comments is one of the blanks. -/
theorem exists_blank_of_notMem_placed {byte : Nat} (hblank : ∀ c, Part.blank c ∈ parts → isBlank c)
    (hle : place ≤ byte) (hlt : byte < place + byteSize (written parts))
    (hout : ∀ m ∈ placed place parts, m.span.contains byte = false) :
    ∃ front c back, written parts = front ++ c :: back ∧ place + byteSize front = byte ∧
      isBlank c = true := by
  induction parts generalizing place with
  | nil =>
    change byte < place + 0 at hlt
    omega
  | cons part parts ih =>
    rw [written_cons, byteSize_append] at hlt
    by_cases hlater : place + byteSize part.text ≤ byte
    · have hrest : ∀ m ∈ placed (place + byteSize part.text) parts, m.span.contains byte = false := by
        intro m hm
        exact hout m (mem_placed_cons hm)
      obtain ⟨front, c, back, hwritten, hsize, hc⟩ := ih
        (fun c hc => hblank c (List.mem_cons_of_mem _ hc)) hlater (by omega) hrest
      refine ⟨part.text ++ front, c, back, ?_, ?_, hc⟩
      · rw [written_cons, hwritten, List.append_assoc]
      · rw [byteSize_append]
        omega
    · -- The byte is in the first part, which is then no comment.
      cases hpart : part.isBlock? with
      | none =>
        cases part with
        | blank c =>
          have hc : isBlank c = true := hblank c List.mem_cons_self
          have hone : byteSize [c] = 1 := utf8Size_of_isBlank hc
          change ¬ place + byteSize [c] ≤ byte at hlater
          exact ⟨[], c, written parts, rfl, by change place + 0 = byte; omega, hc⟩
        | line body => exact absurd hpart (by simp [Part.isBlock?])
        | block body => exact absurd hpart (by simp [Part.isBlock?])
      | some isBlock =>
        have hmem : (⟨⟨place, place + byteSize part.text⟩, isBlock⟩ : Comment) ∈
            placed place (part :: parts) := by
          simp only [placed, hpart, List.mem_cons, true_or]
        have hcontains : Span.contains ⟨place, place + byteSize part.text⟩ byte = false :=
          hout _ hmem
        simp only [Span.contains, Bool.and_eq_false_iff, decide_eq_false_iff_not] at hcontains
        omega

end

theorem Delimited.isBlank_of_mem {parts : List Part} (h : Delimited parts) :
    ∀ c, Part.blank c ∈ parts → isBlank c = true := by
  induction h with
  | nil => simp
  | blank hc _ ih =>
    intro d hd
    rcases List.mem_cons.mp hd with heq | hd
    · rw [Part.blank.inj heq]
      exact hc
    · exact ih d hd
  | line _ _ _ ih | block _ _ ih =>
    intro d hd
    rcases List.mem_cons.mp hd with heq | hd
    · exact absurd heq (by simp)
    · exact ih d hd
  | unclosed => simp

/-- The comments among the parts of a text are all of it but the blanks. -/
theorem Delimited.separates {text : String} {parts : List Part} (h : Delimited parts)
    (htext : text.toList = written parts) : Separates text (placed 0 parts) where
  ordered := placed_pairwise 0 parts
  within := by
    intro m hm
    obtain ⟨before, part, after, rfl, hkind, hstart, hstop⟩ := exists_of_mem_placed hm
    have hopener : byteSize m.opener ≤ byteSize part.text := by
      obtain ⟨rest, hrest⟩ := Part.opener_prefix hkind
      rw [← hrest, byteSize_append]
      omega
    have htwo := two_le_byteSize_opener m
    rw [← byteSize_toList, htext, written_append, written_cons, byteSize_append, byteSize_append]
    omega
  opened := by
    intro m hm
    obtain ⟨before, part, after, rfl, hkind, hstart, hstop⟩ := exists_of_mem_placed hm
    have hslice : slice? text.toList m.span.start m.span.stop = some part.text := by
      rw [htext, written_append, written_cons, ← List.append_assoc, hstop, hstart, Nat.zero_add]
      exact slice?_append _ _ _
    rw [Span.text, hslice, Option.getD_some, String.toList_ofList]
    exact Part.opener_prefix hkind
  blank := by
    intro place hlt hout
    rw [← byteSize_toList, htext] at hlt
    rw [htext]
    simpa using exists_blank_of_notMem_placed h.isBlank_of_mem (Nat.zero_le place) (by omega) hout

/-- The same text is stepped over in one way only. -/
theorem Passes.placed_eq {cs rest rest' : List Char} {parts parts' : List Part}
    (h : Passes cs parts rest) (h' : Passes cs parts' rest') (place : Nat) :
    placed place parts = placed place parts' := by
  have hrest : rest = rest' := h.skip_eq.symm.trans h'.skip_eq
  have happend : written parts ++ rest = written parts' ++ rest := by
    rw [h.written_append, hrest, h'.written_append]
  have hwritten : written parts = written parts' := List.append_cancel_right happend
  calc placed place parts
      = commentsFrom 0 place .blank (written parts) := (h.delimited.commentsFrom_written 0 place).symm
    _ = commentsFrom 0 place .blank (written parts') := by rw [hwritten]
    _ = placed place parts' := h'.delimited.commentsFrom_written 0 place

end Trivia

namespace Token

/-- The trivia of a token consists of what is stepped over where the token starts. -/
theorem exists_passes_of_mem_calls {source : String} {count : Nat} {t : Token}
    (ht : t ∈ calls count 0 source.toList) :
    ∃ front cs parts, front ++ cs = source.toList ∧ Text.byteSize front = t.start ∧
      Trivia.Passes cs parts (Trivia.skip cs) ∧ t.leading.toList = Trivia.written parts := by
  obtain ⟨front, cs, htext, hstart, hscan⟩ := exists_scan_of_mem_calls ht
  obtain ⟨parts, hparts⟩ := Trivia.exists_passes cs
  refine ⟨front, cs, parts, htext, ?_, hparts, ?_⟩
  · rw [← hstart, ← Text.byteSize_toList, String.toList_ofList, Nat.zero_add]
  · have hleading : t.leading.toList = before cs (Trivia.skip cs) := by
      rw [← hscan]
      exact String.toList_ofList
    have happend : t.leading.toList ++ Trivia.skip cs = Trivia.written parts ++ Trivia.skip cs := by
      rw [hleading, before_append (Trivia.skip_suffix cs), hparts.written_append]
    exact List.append_cancel_right happend

/-- The trivia of a token splits into comments, with blanks before, between and after them. They are those
that are stepped over in the source between where the trivia starts and where the token's own text does. -/
theorem comments_leading {source : String} {count : Nat} {t : Token}
    (ht : t ∈ calls count 0 source.toList) :
    Trivia.skipAt source t.start = t.place ∧
      Trivia.Separates t.leading (Trivia.comments t.leading) ∧
      ∀ stepped, Trivia.SteppedOver source t.start stepped ↔
        (Trivia.comments t.leading).map (·.shift t.start) = stepped := by
  obtain ⟨front, cs, parts, htext, hsize, hparts, hleading⟩ := exists_passes_of_mem_calls ht
  have hcomments : Trivia.comments t.leading = Trivia.placed 0 parts := by
    unfold Trivia.comments
    rw [hleading]
    exact hparts.delimited.commentsFrom_written 0 0
  -- What is stepped over is the text from the token's start on, which is at one place in the source.
  have hdrop : Text.dropBytes? source.toList t.start = some cs := by
    rw [← htext, ← hsize, Text.dropBytes?_append]
  refine ⟨?_, ?_, ?_⟩
  · have hbytes : Text.byteSize cs = t.leading.utf8ByteSize + Text.byteSize (Trivia.skip cs) := by
      rw [← Text.byteSize_toList, hleading, ← Text.byteSize_append, hparts.written_append]
    unfold Trivia.skipAt
    rw [hdrop]
    change t.start + (Text.byteSize cs - Text.byteSize (Trivia.skip cs)) = t.start + _
    omega
  · rw [hcomments]
    exact hparts.delimited.separates hleading
  · intro stepped
    rw [hcomments, Trivia.placed_shift, Nat.zero_add]
    constructor
    · rintro ⟨front', cs', parts', htext', hsize', hparts', rfl⟩
      rw [← htext', ← hsize', Text.dropBytes?_append] at hdrop
      obtain rfl := Option.some.inj hdrop
      exact hparts.placed_eq hparts' t.start
    · rintro rfl
      exact ⟨front, cs, parts, htext, hsize, hparts, rfl⟩

/-- A nested comment, a line comment right after it, and one that nothing closes. -/
theorem comments_leading_adjacent :
    { kind := .endOfFile, leading := "/*é/**/*///b\n\t/*/", start := 1 } ∈
        calls 2 0 "a/*é/**/*///b\n\t/*/".toList ∧
      Trivia.SteppedOver "a/*é/**/*///b\n\t/*/" 1
        [⟨⟨1, 11⟩, true⟩, ⟨⟨11, 14⟩, false⟩, ⟨⟨16, 19⟩, true⟩] := by
  have hmem : { kind := .endOfFile, leading := "/*é/**/*///b\n\t/*/", start := 1 } ∈
      calls 2 0 "a/*é/**/*///b\n\t/*/".toList := by decide +kernel
  exact ⟨hmem, ((comments_leading hmem).2.2 _).mpr (by decide +kernel)⟩

end Token

end KotlinTree
