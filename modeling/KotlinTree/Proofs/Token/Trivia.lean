import Mathlib.Data.List.Infix
import KotlinTree.Proofs.Token.Suffix

/-!
Trivia as the parts it consists of: blanks, line comments and nested block comments. Main statements:
what `skip` steps over is written by such parts (`exists_passes`), and `hasLineBreak_of_delimited`: a line
break that is found in trivia stands outside its block comments, and every such break is found unless a
line comment holds what would open a block comment.

The scan for line breaks knows no line comments. It reads their text as blanks, so an opener in one of
them puts all that follows inside a block comment that is not there.
-/

namespace KotlinTree.Trivia

/-- A part of trivia. The text of a comment is what follows the two characters that open it. -/
inductive Part where
  | blank (c : Char)
  | line (body : List Char)
  | block (body : List Char)

def Part.text : Part → List Char
  | .blank c => [c]
  | .line body => '/' :: '/' :: body
  | .block body => '/' :: '*' :: body

/-- The text that parts write. -/
def written (parts : List Part) : List Char := parts.flatMap Part.text

@[simp] theorem written_nil : written [] = [] := rfl

@[simp] theorem written_cons (part : Part) (parts : List Part) :
    written (part :: parts) = part.text ++ written parts := List.flatMap_cons

/-- Text inside block comments, by the depth before it and after it; nothing is left to read at depth
zero. -/
inductive Nested : Nat → List Char → Nat → Prop
  | done (depth : Nat) : Nested depth [] depth
  | opener {depth last : Nat} {cs : List Char} (hrest : Nested (depth + 2) cs last) :
      Nested (depth + 1) ('/' :: '*' :: cs) last
  | closer {depth last : Nat} {cs : List Char} (hrest : Nested depth cs last) :
      Nested (depth + 1) ('*' :: '/' :: cs) last
  | char {depth last : Nat} {c : Char} {cs : List Char} (hopener : ¬ ['/', '*'] <+: c :: cs)
      (hcloser : ¬ ['*', '/'] <+: c :: cs) (hrest : Nested (depth + 1) cs last) :
      Nested (depth + 1) (c :: cs) last

/-- A line comment ends here: at the end of the trivia or before the end of a line. -/
def EndsLine : List Part → Prop
  | [] => True
  | .blank c :: _ => isLineEnd c
  | _ => False

/-- Parts that keep apart: a line comment runs to the end of its line, a block comment to the closer of
its own depth, or to the end of the text if there is none. -/
inductive Delimited : List Part → Prop
  | nil : Delimited []
  | blank {c : Char} {parts : List Part} (hc : isBlank c) (hparts : Delimited parts) :
      Delimited (.blank c :: parts)
  | line {body : List Char} {parts : List Part} (hbody : ∀ c ∈ body, isLineEnd c = false)
      (hend : EndsLine parts) (hparts : Delimited parts) : Delimited (.line body :: parts)
  | block {body : List Char} {parts : List Part} (hbody : Nested 1 body 0)
      (hparts : Delimited parts) : Delimited (.block body :: parts)
  | unclosed {body : List Char} {depth : Nat} (hbody : Nested 1 body (depth + 1)) :
      Delimited [.block body]

/-- One blank or comment after another is stepped over at the front of a text, until neither is there. The
text of a line comment goes up to the end of its line, that of a block comment to its own closer or, if there
is none, to the end of the text. -/
inductive Passes : List Char → List Part → List Char → Prop
  | stop {cs : List Char} (hblank : ∀ c ∈ cs.head?, isBlank c = false) (hline : ¬ ['/', '/'] <+: cs)
      (hblock : ¬ ['/', '*'] <+: cs) : Passes cs [] cs
  | blank {c : Char} {cs rest : List Char} {parts : List Part} (hc : isBlank c)
      (h : Passes cs parts rest) : Passes (c :: cs) (.blank c :: parts) rest
  | line {body cs rest : List Char} {parts : List Part} (hbody : ∀ c ∈ body, isLineEnd c = false)
      (hend : ∀ c ∈ cs.head?, isLineEnd c = true) (h : Passes cs parts rest) :
      Passes ('/' :: '/' :: (body ++ cs)) (.line body :: parts) rest
  | block {body cs rest : List Char} {parts : List Part} (hbody : Nested 1 body 0)
      (h : Passes cs parts rest) : Passes ('/' :: '*' :: (body ++ cs)) (.block body :: parts) rest
  | unclosed {body : List Char} {depth : Nat} (hbody : Nested 1 body (depth + 1)) :
      Passes ('/' :: '*' :: body) [.block body] []

/-- A line ends in the part, which is no block comment. -/
def Part.breaksLine : Part → Bool
  | .blank c => isLineEnd c
  | .line body => body.any isLineEnd
  | .block _ => false

/-- The part is a line comment in which a block comment would open. -/
def Part.HoldsOpener : Part → Prop
  | .line body => ['/', '*'] <:+: '/' :: '/' :: body
  | _ => False

/-- A comment that has been opened cannot end with nothing. -/
theorem Nested.ne_nil {depth : Nat} {cs : List Char} (h : Nested (depth + 1) cs 0) : cs ≠ [] := by
  rintro rfl
  cases h

/-- Whether two characters come next is seen in what is not empty, whatever follows. -/
theorem isPrefix_pair_append {a b c : Char} {cs rest : List Char} (hne : cs ≠ []) :
    [a, b] <+: c :: (cs ++ rest) ↔ [a, b] <+: c :: cs := by
  obtain ⟨d, ds, rfl⟩ := List.exists_cons_of_ne_nil hne
  simp [List.cons_prefix_cons]

/-- A scan that counts openers and closers and knows its place stands after nested text at the depth and
the place after it. The text is followed by anything if it is closed, and by nothing if it is not. -/
theorem Nested.scanFrom {α : Type} {f : Nat → Nat → List Char → α}
    (hopener : ∀ place depth cs,
      f place (depth + 1) ('/' :: '*' :: cs) = f (place + 2) (depth + 2) cs)
    (hcloser : ∀ place depth cs, f place (depth + 1) ('*' :: '/' :: cs) = f (place + 2) depth cs)
    (hchar : ∀ place depth c cs, ¬ ['/', '*'] <+: c :: cs → ¬ ['*', '/'] <+: c :: cs →
      f place (depth + 1) (c :: cs) = f (place + c.utf8Size) (depth + 1) cs)
    {depth last : Nat} {body rest : List Char} (h : Nested depth body last)
    (hrest : last = 0 ∨ rest = []) (place : Nat) :
    f place depth (body ++ rest) = f (place + Text.byteSize body) last rest := by
  induction h generalizing place with
  | done depth => rfl
  | @opener depth last cs _ ih =>
    rw [Text.byteSize_pair rfl rfl]
    exact (hopener _ _ _).trans (ih hrest _)
  | @closer depth last cs _ ih =>
    rw [Text.byteSize_pair rfl rfl]
    exact (hcloser _ _ _).trans (ih hrest _)
  | @char depth last c cs hnoOpener hnoCloser hnested ih =>
    -- What follows does not turn the character into an opener or a closer.
    have hsame (a b : Char) : [a, b] <+: c :: (cs ++ rest) ↔ [a, b] <+: c :: cs := by
      rcases hrest with rfl | rfl
      · exact isPrefix_pair_append hnested.ne_nil
      · rw [List.append_nil]
    have hstep := hchar place depth c (cs ++ rest) (by rwa [hsame]) (by rwa [hsame])
    rw [Text.byteSize_cons, ← Nat.add_assoc]
    exact hstep.trans (ih hrest _)

/-- A scan that counts openers and closers stands after nested text at the depth after it. -/
theorem Nested.scan {α : Type} {f : Nat → List Char → α}
    (hopener : ∀ depth cs, f (depth + 1) ('/' :: '*' :: cs) = f (depth + 2) cs)
    (hcloser : ∀ depth cs, f (depth + 1) ('*' :: '/' :: cs) = f depth cs)
    (hchar : ∀ depth c cs, ¬ ['/', '*'] <+: c :: cs → ¬ ['*', '/'] <+: c :: cs →
      f (depth + 1) (c :: cs) = f (depth + 1) cs)
    {depth last : Nat} {body rest : List Char} (h : Nested depth body last)
    (hrest : last = 0 ∨ rest = []) : f depth (body ++ rest) = f last rest :=
  h.scanFrom (f := fun _ => f) (fun _ => hopener) (fun _ => hcloser) (fun _ => hchar) hrest 0

/-- The place at a depth of nested comments. -/
def Context.inside : Nat → Context
  | 0 => .blank
  | depth + 1 => .block (depth + 1)

/-- A character that begins neither delimiter is passed over in a block comment. -/
theorem skipFrom_char {depth : Nat} {c : Char} {cs : List Char} (hopener : ¬ ['/', '*'] <+: c :: cs)
    (hcloser : ¬ ['*', '/'] <+: c :: cs) :
    skipFrom (.block depth) (c :: cs) = skipFrom (.block depth) cs := by
  rw [skipFrom]
  · rintro rest rfl rfl
    exact hopener ⟨rest, rfl⟩
  · rintro rest rfl rfl
    exact hcloser ⟨rest, rfl⟩

/-- The body of a comment is passed over up to its end, or to the end of the text where it has none. -/
theorem Nested.skipFrom_append {depth last : Nat} {body rest : List Char} (h : Nested depth body last)
    (hrest : last = 0 ∨ rest = []) :
    skipFrom (.inside depth) (body ++ rest) = skipFrom (.inside last) rest := by
  refine h.scan (f := fun depth cs => skipFrom (.inside depth) cs) ?_ ?_ ?_ hrest
  · intro depth cs
    rfl
  · intro depth cs
    cases depth with
    | zero => rfl
    | succ depth => simp [Context.inside, skipFrom]
  · intro depth c cs hopener hcloser
    exact skipFrom_char hopener hcloser

/-- The body of a line comment holds no line end, and is passed over. -/
theorem skipFrom_line_append {body rest : List Char} (hbody : ∀ c ∈ body, isLineEnd c = false) :
    skipFrom .line (body ++ rest) = skipFrom .line rest := by
  induction body with
  | nil => rfl
  | cons c body ih =>
    have hc := hbody c List.mem_cons_self
    have hrest := ih fun d hd => hbody d (List.mem_cons_of_mem _ hd)
    simp [skipFrom, hc, hrest]

/-- White space is passed over. -/
theorem skipFrom_blank {c : Char} {cs : List Char} (hc : isBlank c) :
    skipFrom .blank (c :: cs) = skipFrom .blank cs := by
  rw [skipFrom.eq_def]
  exact if_pos hc

/-- A line end is white space. -/
theorem isBlank_of_isLineEnd {c : Char} (hc : isLineEnd c) : isBlank c := by
  simp only [isLineEnd, Bool.or_eq_true, decide_eq_true_eq] at hc
  rcases hc with rfl | rfl <;> rfl

/-- At a line end, a line comment is over. -/
theorem skipFrom_line_of_head {cs : List Char} (h : ∀ c ∈ cs.head?, isLineEnd c = true) :
    skipFrom .line cs = skipFrom .blank cs := by
  cases cs with
  | nil => rfl
  | cons c cs =>
    have hc : isLineEnd c = true := h c rfl
    calc skipFrom .line (c :: cs)
        = skipFrom .blank cs := by simp [skipFrom, hc]
      _ = skipFrom .blank (c :: cs) := (skipFrom_blank (isBlank_of_isLineEnd hc)).symm

/-- A scan stands where one blank or comment after another has been stepped over. -/
theorem Passes.skip_eq {cs rest : List Char} {parts : List Part} (h : Passes cs parts rest) :
    skip cs = rest := by
  -- The induction is on what is passed over, a part at a time; `skip` comes to the end of each.
  induction h with
  | @stop cs hblank hline hblock =>
    cases cs with
    | nil => rfl
    | cons c cs =>
      have hc : isBlank c = false := hblank c rfl
      unfold skip
      rw [skipFrom.eq_def]
      simp only [hc, Bool.false_eq_true, if_false]
      split
      · rename_i hslash
        subst hslash
        split
        · exact absurd (List.prefix_append ['/', '/'] _) hline
        · exact absurd (List.prefix_append ['/', '*'] _) hblock
        · rfl
      · rfl
  | @blank c cs rest parts hc _ ih =>
    calc skip (c :: cs)
        = skip cs := skipFrom_blank hc
      _ = rest := ih
  | @line body cs rest parts hbody hend _ ih =>
    calc skip ('/' :: '/' :: (body ++ cs))
        = skipFrom .line (body ++ cs) := rfl
      _ = skipFrom .line cs := skipFrom_line_append hbody
      _ = skip cs := skipFrom_line_of_head hend
      _ = rest := ih
  | @block body cs rest parts hbody _ ih =>
    calc skip ('/' :: '*' :: (body ++ cs))
        = skipFrom (.inside 1) (body ++ cs) := rfl
      _ = skip cs := hbody.skipFrom_append (.inl rfl)
      _ = rest := ih
  | @unclosed body depth hbody =>
    calc skip ('/' :: '*' :: body)
        = skipFrom (.inside 1) (body ++ []) := by rw [List.append_nil]; rfl
      _ = skipFrom (.inside (depth + 1)) [] := hbody.skipFrom_append (.inr rfl)
      _ = [] := rfl

/-- What is stepped over and what is left make up the text. -/
theorem Passes.written_append {cs rest : List Char} {parts : List Part} (h : Passes cs parts rest) :
    written parts ++ rest = cs := by
  induction h with
  | stop => rfl
  | blank _ _ ih => simp [Part.text, ih]
  | line _ _ _ ih => simp [Part.text, ih]
  | block _ _ ih => simp [Part.text, ih]
  | unclosed => simp [Part.text]

/-- What is passed over from a line end on begins with it, or is nothing. -/
theorem Passes.endsLine {cs rest : List Char} {parts : List Part} (h : Passes cs parts rest)
    (hend : ∀ c ∈ cs.head?, isLineEnd c = true) : EndsLine parts := by
  cases h with
  | stop => exact trivial
  | blank => exact hend _ rfl
  | line => exact absurd (hend '/' rfl) (by decide)
  | block => exact absurd (hend '/' rfl) (by decide)
  | unclosed => exact absurd (hend '/' rfl) (by decide)

/-- Trivia that is passed over is well delimited. -/
theorem Passes.delimited {cs rest : List Char} {parts : List Part} (h : Passes cs parts rest) :
    Delimited parts := by
  induction h with
  | stop => exact .nil
  | blank hc _ ih => exact ih.blank hc
  | line hbody hend h ih => exact ih.line hbody (h.endsLine hend)
  | block hbody _ ih => exact ih.block hbody
  | unclosed hbody => exact .unclosed hbody

/-- Where a line comment ends, what is written next begins with a line end. -/
theorem EndsLine.head? {parts : List Part} (h : EndsLine parts) :
    ∀ c ∈ (written parts).head?, isLineEnd c = true := by
  cases parts with
  | nil => simp
  | cons part parts =>
    cases part with
    | blank c =>
      intro d hd
      rw [← Option.some.inj hd]
      exact h
    | line body => exact h.elim
    | block body => exact h.elim

/-- Well delimited trivia is passed over as what it is. -/
theorem Delimited.passes {parts : List Part} (h : Delimited parts) :
    Passes (written parts) parts [] := by
  induction h with
  | nil => exact .stop (by simp) (by simp) (by simp)
  | blank hc _ ih => exact ih.blank hc
  | line hbody hend _ ih => exact ih.line hbody hend.head?
  | block hbody _ ih => exact ih.block hbody
  | @unclosed body depth hbody =>
    have hpasses : Passes ('/' :: '*' :: body) [.block body] [] := .unclosed hbody
    simpa [Part.text] using hpasses

/-- Of well delimited trivia, nothing is left. -/
theorem Delimited.skip_written {parts : List Part} (h : Delimited parts) :
    skip (written parts) = [] := h.passes.skip_eq

/-- What the front of a text consists of that is stepped over from a place in it. -/
def Reads : Context → List Char → List Char → Prop
  | .blank, cs, rest => ∃ parts, Passes cs parts rest
  | .line, cs, rest => ∃ body next parts, (∀ c ∈ body, isLineEnd c = false) ∧
      (∀ c ∈ next.head?, isLineEnd c = true) ∧ Passes next parts rest ∧ body ++ next = cs
  | .block 0, _, _ => False
  | .block (depth + 1), cs, rest => (∃ body next parts, Nested (depth + 1) body 0 ∧
      Passes next parts rest ∧ body ++ next = cs) ∨
        rest = [] ∧ ∃ last, Nested (depth + 1) cs (last + 1)

/-- An opener opens another level, up to whose end more is read. -/
theorem Reads.opener {depth : Nat} {cs rest : List Char} (h : Reads (.block (depth + 2)) cs rest) :
    Reads (.block (depth + 1)) ('/' :: '*' :: cs) rest := by
  rcases h with ⟨body, next, parts, hbody, hparts, rfl⟩ | ⟨rfl, last, hbody⟩
  · exact .inl ⟨_, next, parts, hbody.opener, hparts, rfl⟩
  · exact .inr ⟨rfl, last, hbody.opener⟩

/-- The outermost block comment closes, and blanks and comments follow. -/
theorem Reads.closer_one {cs rest : List Char} (h : Reads .blank cs rest) :
    Reads (.block 1) ('*' :: '/' :: cs) rest := by
  obtain ⟨parts, hparts⟩ := h
  exact .inl ⟨_, cs, parts, (Nested.done 0).closer, hparts, rfl⟩

/-- A closer closes a level. -/
theorem Reads.closer {depth : Nat} {cs rest : List Char} (h : Reads (.block (depth + 1)) cs rest) :
    Reads (.block (depth + 2)) ('*' :: '/' :: cs) rest := by
  rcases h with ⟨body, next, parts, hbody, hparts, rfl⟩ | ⟨rfl, last, hbody⟩
  · exact .inl ⟨_, next, parts, hbody.closer, hparts, rfl⟩
  · exact .inr ⟨rfl, last, hbody.closer⟩

/-- A character that begins neither delimiter is read at the same level. -/
theorem Reads.char {depth : Nat} {c : Char} {cs rest : List Char}
    (hopener : ¬ ['/', '*'] <+: c :: cs) (hcloser : ¬ ['*', '/'] <+: c :: cs)
    (h : Reads (.block (depth + 1)) cs rest) : Reads (.block (depth + 1)) (c :: cs) rest := by
  rcases h with ⟨body, next, parts, hbody, hparts, rfl⟩ | ⟨rfl, last, hbody⟩
  · rw [isPrefix_pair_append hbody.ne_nil] at hopener hcloser
    exact .inl ⟨c :: body, next, parts, hbody.char hopener hcloser, hparts, rfl⟩
  · exact .inr ⟨rfl, last, hbody.char hopener hcloser⟩

/-- What a scan leaves comes after blanks and comments that it has stepped over one by one. -/
theorem reads_skipFrom {context : Context} {cs : List Char} (hcontext : context ≠ .block 0) :
    Reads context cs (skipFrom context cs) := by
  fun_induction skipFrom context cs with
  | case1 context =>
    have hpasses : Passes [] [] [] := .stop (by simp) (by simp) (by simp)
    cases context with
    | blank => exact ⟨[], hpasses⟩
    | line => exact ⟨[], [], [], by simp, by simp, hpasses, rfl⟩
    | block depth =>
      cases depth with
      | zero => exact absurd rfl hcontext
      | succ depth => exact .inr ⟨rfl, depth, .done _⟩
  | case2 c cs hc ih =>
    obtain ⟨parts, hparts⟩ := ih (by simp)
    exact ⟨.blank c :: parts, hparts.blank hc⟩
  | case3 rest _ ih =>
    obtain ⟨body, next, parts, hbody, hend, hparts, rfl⟩ := ih (by simp)
    exact ⟨.line body :: parts, hparts.line hbody hend⟩
  | case4 rest _ ih =>
    rcases ih (by simp) with ⟨body, next, parts, hbody, hparts, rfl⟩ | ⟨hend, last, hbody⟩
    · exact ⟨.block body :: parts, hparts.block hbody⟩
    · rw [hend]
      exact ⟨[.block rest], .unclosed hbody⟩
  | case5 cs hline hblock hslash =>
    -- A slash that opens no comment.
    refine ⟨[], .stop (by simpa using hslash) ?_ ?_⟩
    · rintro ⟨rest, hrest⟩
      exact hline rest (List.cons.inj hrest).2.symm
    · rintro ⟨rest, hrest⟩
      exact hblock rest (List.cons.inj hrest).2.symm
  | case6 c cs hblank hc =>
    refine ⟨[], .stop (by simpa using hblank) ?_ ?_⟩
    · rintro ⟨rest, hrest⟩
      exact hc (List.cons.inj hrest).1.symm
    · rintro ⟨rest, hrest⟩
      exact hc (List.cons.inj hrest).1.symm
  | case7 c cs hc ih =>
    -- The end of the line is a blank after the comment.
    obtain ⟨parts, hparts⟩ := ih (by simp)
    exact ⟨[], c :: cs, .blank c :: parts, by simp, by simpa using hc,
      hparts.blank (isBlank_of_isLineEnd hc), rfl⟩
  | case8 c cs hc ih =>
    obtain ⟨body, next, parts, hbody, hend, hparts, rfl⟩ := ih (by simp)
    have hcbody : ∀ d ∈ c :: body, isLineEnd d = false :=
      List.forall_mem_cons.mpr ⟨Bool.eq_false_iff.mpr hc, hbody⟩
    exact ⟨c :: body, next, parts, hcbody, hend, hparts, rfl⟩
  | case9 depth rest ih =>
    cases depth with
    | zero => exact absurd rfl hcontext
    | succ depth => exact (ih (by simp)).opener
  | case10 depth rest hle ih =>
    have hone : depth = 1 := by
      have hne : depth ≠ 0 := fun hzero => hcontext (congrArg Context.block hzero)
      omega
    subst hone
    exact (ih (by simp)).closer_one
  | case11 depth rest hle ih =>
    obtain ⟨depth, rfl⟩ : ∃ d, depth = d + 2 := ⟨depth - 2, by omega⟩
    exact (ih (by simp)).closer
  | case12 depth c cs hnoOpener hnoCloser ih =>
    cases depth with
    | zero => exact absurd rfl hcontext
    | succ depth =>
      refine (ih hcontext).char ?_ ?_
      · rintro ⟨rest, hrest⟩
        obtain ⟨rfl, rfl⟩ := List.cons.inj hrest
        exact hnoOpener rest rfl rfl
      · rintro ⟨rest, hrest⟩
        obtain ⟨rfl, rfl⟩ := List.cons.inj hrest
        exact hnoCloser rest rfl rfl

/-- Whatever is passed over is a list of parts. -/
theorem exists_passes (cs : List Char) : ∃ parts, Passes cs parts (skip cs) := by
  have hreads : Reads .blank cs (skipFrom .blank cs) := reads_skipFrom (by simp)
  exact hreads

/-- In a comment, a character that begins neither delimiter breaks no line. -/
theorem hasLineBreakFrom_char {depth : Nat} {c : Char} {cs : List Char}
    (hopener : ¬ ['/', '*'] <+: c :: cs) (hcloser : ¬ ['*', '/'] <+: c :: cs) :
    hasLineBreakFrom (depth + 1) (c :: cs) = hasLineBreakFrom (depth + 1) cs := by
  rw [hasLineBreakFrom]
  · rintro rest rfl rfl
    exact hopener ⟨rest, rfl⟩
  · rintro rest rfl rfl
    exact hcloser ⟨rest, rfl⟩

/-- A comment is passed over without a look at its line ends. -/
theorem Nested.hasLineBreakFrom_append {depth last : Nat} {body rest : List Char}
    (h : Nested depth body last) (hrest : last = 0 ∨ rest = []) :
    hasLineBreakFrom depth (body ++ rest) = hasLineBreakFrom last rest :=
  h.scan (fun _ _ => rfl) (fun _ _ => rfl) (fun _ _ _ => hasLineBreakFrom_char) hrest

/-- Outside of comments, a line end breaks the line. -/
theorem hasLineBreakFrom_zero_cons {c : Char} {cs : List Char} (hopener : ¬ ['/', '*'] <+: c :: cs) :
    hasLineBreakFrom 0 (c :: cs) = (isLineEnd c || hasLineBreakFrom 0 cs) := by
  rw [hasLineBreakFrom]
  rintro rest rfl rfl
  exact hopener ⟨rest, rfl⟩

/-- What a line comment is made of has no line end. -/
theorem Part.line_text_forall {body : List Char} (hbody : ∀ c ∈ body, isLineEnd c = false) :
    ∀ c ∈ (Part.line body).text, isLineEnd c = false :=
  List.forall_mem_cons.mpr ⟨rfl, List.forall_mem_cons.mpr ⟨rfl, hbody⟩⟩

/-- A line break is found only where a line ends. -/
theorem any_isLineEnd_of_hasLineBreakFrom {depth : Nat} {cs : List Char}
    (h : hasLineBreakFrom depth cs = true) : cs.any isLineEnd = true := by
  fun_induction hasLineBreakFrom depth cs with
  | case1 => exact absurd h Bool.false_ne_true
  | case2 rest ih | case4 _ rest ih | case5 _ rest ih => simp [ih h]
  | case3 c cs _ ih =>
    rcases Bool.or_eq_true_iff.mp h with hc | hrest
    · simp [hc]
    · simp [ih hrest]
  | case6 _ c cs _ _ ih => simp [ih h]

/-- The end of a line does not make an opener of the character before it. -/
theorem not_opener_before_endsLine {c : Char} {parts : List Part} (hend : EndsLine parts) :
    ¬ ['/', '*'] <+: c :: written parts := by
  cases parts with
  | nil => simp [List.cons_prefix_cons]
  | cons part parts =>
    cases part with
    | blank d =>
      have hline : isLineEnd d := hend
      have hd : d ≠ '*' := by
        rintro rfl
        exact absurd hline (by decide)
      simp [Part.text, List.cons_prefix_cons, Ne.symm hd]
    | line body => exact hend.elim
    | block body => exact hend.elim

/-- Text of a line comment without an opener is read as blanks, up to the end of the line. -/
theorem hasLineBreakFrom_line_append {cs : List Char} {parts : List Part}
    (hcs : ∀ c ∈ cs, isLineEnd c = false) (hopener : ¬ ['/', '*'] <:+: cs) (hend : EndsLine parts) :
    hasLineBreakFrom 0 (cs ++ written parts) = hasLineBreakFrom 0 (written parts) := by
  induction cs with
  | nil => rfl
  | cons c cs ih =>
    obtain ⟨hc, hrest⟩ := List.forall_mem_cons.mp hcs
    have hnoRest : ¬ ['/', '*'] <:+: cs := fun h => hopener (List.infix_cons h)
    have hnoHere : ¬ ['/', '*'] <+: c :: (cs ++ written parts) := by
      rcases eq_or_ne cs [] with rfl | hne
      · exact not_opener_before_endsLine hend
      · rw [isPrefix_pair_append hne]
        exact fun h => hopener h.isInfix
    calc hasLineBreakFrom 0 (c :: (cs ++ written parts))
        = (isLineEnd c || hasLineBreakFrom 0 (cs ++ written parts)) :=
          hasLineBreakFrom_zero_cons hnoHere
      _ = hasLineBreakFrom 0 (cs ++ written parts) := by rw [hc, Bool.false_or]
      _ = hasLineBreakFrom 0 (written parts) := ih hrest hnoRest

/-- White space breaks the line if it is a line end. -/
theorem hasLineBreakFrom_blank {c : Char} {cs : List Char} (hc : isBlank c) :
    hasLineBreakFrom 0 (c :: cs) = (isLineEnd c || hasLineBreakFrom 0 cs) := by
  apply hasLineBreakFrom_zero_cons
  rintro ⟨rest, hrest⟩
  obtain ⟨rfl, -⟩ := List.cons.inj hrest
  exact absurd hc (by decide)

/-- A line ends right after a line comment, unless the trivia ends there. -/
theorem EndsLine.breaksLine {parts : List Part} (hend : EndsLine parts) (hne : parts ≠ []) :
    parts.any Part.breaksLine = true := by
  cases parts with
  | nil => exact absurd rfl hne
  | cons part parts =>
    cases part with
    | blank c => exact Bool.or_eq_true_iff.mpr (.inl hend)
    | line body => exact hend.elim
    | block body => exact hend.elim

/-- A line break that is found is in one of the parts. -/
theorem Delimited.any_breaksLine {parts : List Part} (h : Delimited parts)
    (hbreak : hasLineBreakFrom 0 (written parts) = true) : parts.any Part.breaksLine = true := by
  induction h with
  | nil => exact absurd hbreak Bool.false_ne_true
  | @blank c parts hc _ ih =>
    have hread : hasLineBreakFrom 0 (c :: written parts) = true := hbreak
    rw [hasLineBreakFrom_blank hc] at hread
    rcases Bool.or_eq_true_iff.mp hread with hline | hrest
    · exact Bool.or_eq_true_iff.mpr (.inl hline)
    · exact Bool.or_eq_true_iff.mpr (.inr (ih hrest))
  | @line body parts hbody hend _ ih =>
    -- An opener in the comment may hide what follows, but not that a line ends after the comment.
    have hrest : parts.any Part.breaksLine = true := by
      apply hend.breaksLine
      rintro rfl
      obtain ⟨c, hmem, hc⟩ := List.any_eq_true.mp (any_isLineEnd_of_hasLineBreakFrom hbreak)
      rw [written_cons, written_nil, List.append_nil] at hmem
      exact absurd hc (by simp [Part.line_text_forall hbody c hmem])
    exact Bool.or_eq_true_iff.mpr (.inr hrest)
  | @block body parts hbody _ ih =>
    have hread : hasLineBreakFrom 1 (body ++ written parts) = true := hbreak
    rw [hbody.hasLineBreakFrom_append (.inl rfl)] at hread
    exact ih hread
  | @unclosed body depth hbody =>
    have hread : hasLineBreakFrom 1 (body ++ []) = true := hbreak
    rw [hbody.hasLineBreakFrom_append (.inr rfl)] at hread
    exact absurd hread Bool.false_ne_true

/-- A line break in one of the parts is found, as long as no line comment hides an opener. -/
theorem Delimited.hasLineBreakFrom_of_any {parts : List Part} (h : Delimited parts)
    (hopener : ∀ part ∈ parts, ¬ part.HoldsOpener) (hbreak : parts.any Part.breaksLine = true) :
    hasLineBreakFrom 0 (written parts) = true := by
  -- The induction is on the parts; only the last may be unclosed, and it breaks no line.
  induction h with
  | nil => exact absurd hbreak Bool.false_ne_true
  | @blank c parts hc _ ih =>
    have hread : hasLineBreakFrom 0 (written (.blank c :: parts)) =
        (isLineEnd c || hasLineBreakFrom 0 (written parts)) := hasLineBreakFrom_blank hc
    rw [hread, Bool.or_eq_true_iff]
    rcases Bool.or_eq_true_iff.mp hbreak with hline | hrest
    · exact .inl hline
    · exact .inr (ih (fun part hpart => hopener part (List.mem_cons_of_mem _ hpart)) hrest)
  | @line body parts hbody hend _ ih =>
    have hnone : body.any isLineEnd = false := by simpa using hbody
    have hrest : parts.any Part.breaksLine = true := by
      simpa [Part.breaksLine, hnone] using hbreak
    have hread : hasLineBreakFrom 0 (written (.line body :: parts)) =
        hasLineBreakFrom 0 (written parts) :=
      hasLineBreakFrom_line_append (Part.line_text_forall hbody) (hopener _ List.mem_cons_self) hend
    rw [hread]
    exact ih (fun part hpart => hopener part (List.mem_cons_of_mem _ hpart)) hrest
  | @block body parts hbody _ ih =>
    have hread : hasLineBreakFrom 0 (written (.block body :: parts)) =
        hasLineBreakFrom 0 (written parts) := hbody.hasLineBreakFrom_append (.inl rfl)
    rw [hread]
    exact ih (fun part hpart => hopener part (List.mem_cons_of_mem _ hpart)) hbreak
  | unclosed => exact absurd hbreak (by simp [Part.breaksLine])

/-- Trivia is stepped over as a whole. A line break found in it is one outside its block comments, and
if no line comment holds an opener of block comments, then every such break is found. -/
theorem hasLineBreak_of_delimited {text : String} {parts : List Part} (hparts : Delimited parts)
    (htext : text.toList = written parts) :
    skip text.toList = [] ∧
      (hasLineBreak text = true → parts.any Part.breaksLine = true) ∧
      ((∀ part ∈ parts, ¬ part.HoldsOpener) →
        (hasLineBreak text = true ↔ parts.any Part.breaksLine = true)) := by
  unfold hasLineBreak
  rw [htext]
  refine ⟨hparts.skip_written, hparts.any_breaksLine, ?_⟩
  intro hopener
  exact ⟨hparts.any_breaksLine, hparts.hasLineBreakFrom_of_any hopener⟩

/-- A line comment after a block comment that holds a comment and a line end of its own. -/
theorem hasLineBreak_after_comments :
    hasLineBreak "/*/**/\n*/// a\n" = true ↔
      [Part.block ['/', '*', '*', '/', '\n', '*', '/'], .line [' ', 'a'], .blank '\n'].any
        Part.breaksLine = true := by
  have hbody : Nested 1 ['/', '*', '*', '/', '\n', '*', '/'] 0 := by
    refine .opener (.closer (.char ?_ ?_ (.closer (.done 0))))
    · decide
    · decide
  have hline : ¬ (Part.line [' ', 'a']).HoldsOpener := by
    change ¬ ['/', '*'] <:+: ['/', '/', ' ', 'a']
    decide
  have hparts : Delimited [.block ['/', '*', '*', '/', '\n', '*', '/'], .line [' ', 'a'], .blank '\n'] :=
    .block hbody (.line (by simp [isLineEnd]) rfl (.blank rfl .nil))
  refine (hasLineBreak_of_delimited hparts (by decide)).2.2 ?_
  rw [List.forall_mem_cons, List.forall_mem_cons, List.forall_mem_singleton]
  exact ⟨id, hline, id⟩

/-- The opener in the comment hides the end of its line. -/
example : hasLineBreak "// /*\n" = false := by decide

end KotlinTree.Trivia
