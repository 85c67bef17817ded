import KotlinTree.Proofs.Token.Partition

/-!
Where string literals end. How a string reads is said of each string and each template on its own, from
what opens it to where it ends. The scan keeps all that is still open on one stack, and notes what stays
open in one place for all of them. Main statement: a string is unterminated if its own quotes are missing,
or if those of a string inside its templates are; if they are not missing, its text is between them.
-/

namespace KotlinTree

namespace Literal

/-- The quotes that stand around a string. -/
def Enclosure.quotes : Enclosure → List Char
  | .raw | .rawClosed => ['"', '"', '"']
  | .quoted | .template _ => ['"']

/-- Quotes that open a string, and what is after them. -/
inductive Opens : List Char → Enclosure → List Char → Prop
  | raw (cs : List Char) : Opens ('"' :: '"' :: '"' :: cs) .raw cs
  | quoted {cs : List Char} (h : ¬ ['"', '"'] <+: cs) : Opens ('"' :: cs) .quoted cs

/-- A character that has no meaning of its own where it stands. -/
def IsPlain (c : Char) (cs : List Char) : Enclosure → Prop
  | .quoted => c ≠ '"' ∧ c ≠ '\\' ∧ Trivia.isLineEnd c = false ∧ ¬ ['$', '\x7b'] <+: c :: cs
  | .raw => ¬ ['"', '"', '"'] <+: c :: cs ∧ ¬ ['$', '\x7b'] <+: c :: cs
  | .rawClosed => False
  | .template _ => c ≠ '"' ∧ c ≠ '\x7b' ∧ c ≠ '\x7d'

/-- How a string or a template reads from some place inside it: whether it is closed, whether all that is
opened inside it is closed too, and what comes after it. -/
inductive Reads : Enclosure → List Char → Bool → Bool → List Char → Prop
  | ended {part : Enclosure} (h : part ≠ .rawClosed) : Reads part [] false true []
  | plain {part : Enclosure} {c : Char} {cs rest : List Char} {closed inner : Bool}
      (h : IsPlain c cs part) (hr : Reads part cs closed inner rest) :
      Reads part (c :: cs) closed inner rest
  /-- The strings of one line end with it. -/
  | lineEnd {c : Char} (cs : List Char) (h : Trivia.isLineEnd c = true) :
      Reads .quoted (c :: cs) false true (c :: cs)
  | close (cs : List Char) : Reads .quoted ('"' :: cs) true true cs
  /-- What is escaped has no meaning of its own, be it a quote or a line end. -/
  | escape {c : Char} {cs rest : List Char} {closed inner : Bool}
      (hr : Reads .quoted cs closed inner rest) : Reads .quoted ('\\' :: c :: cs) closed inner rest
  | escapeEnd : Reads .quoted ['\\'] false true []
  | rawClose {cs rest : List Char} {closed inner : Bool}
      (hr : Reads .rawClosed cs closed inner rest) :
      Reads .raw ('"' :: '"' :: '"' :: cs) closed inner rest
  /-- More quotes than three close a raw string as well. -/
  | rawQuote {cs rest : List Char} {closed inner : Bool}
      (hr : Reads .rawClosed cs closed inner rest) : Reads .rawClosed ('"' :: cs) closed inner rest
  | rawEnd {cs : List Char} (h : cs.head? ≠ some '"') : Reads .rawClosed cs true true cs
  | template {part : Enclosure} {cs mid rest : List Char} {closed inner closed' inner' : Bool}
      (h : part = .quoted ∨ part = .raw) (ht : Reads (.template 1) cs closed' inner' mid)
      (hr : Reads part mid closed inner rest) :
      Reads part ('$' :: '\x7b' :: cs) closed ((closed' && inner') && inner) rest
  | openBrace {depth : Nat} {cs rest : List Char} {closed inner : Bool}
      (hr : Reads (.template (depth + 1)) cs closed inner rest) :
      Reads (.template depth) ('\x7b' :: cs) closed inner rest
  | closeBrace {depth : Nat} {cs rest : List Char} {closed inner : Bool} (h : ¬ depth ≤ 1)
      (hr : Reads (.template (depth - 1)) cs closed inner rest) :
      Reads (.template depth) ('\x7d' :: cs) closed inner rest
  | lastBrace {depth : Nat} (cs : List Char) (h : depth ≤ 1) :
      Reads (.template depth) ('\x7d' :: cs) true true cs
  | nested {depth : Nat} {part : Enclosure} {cs body mid rest : List Char}
      {closed inner closed' inner' : Bool} (ho : Opens cs part body)
      (hs : Reads part body closed' inner' mid) (hr : Reads (.template depth) mid closed inner rest) :
      Reads (.template depth) cs closed ((closed' && inner') && inner) rest

variable {part : Enclosure} {c : Char} {cs body rest : List Char} {closed inner : Bool}

theorem Opens.eq_append (h : Opens cs part body) : cs = part.quotes ++ body := by
  cases h <;> rfl

theorem Opens.isString (h : Opens cs part body) : part = .quoted ∨ part = .raw := by
  cases h
  · exact .inr rfl
  · exact .inl rfl

theorem Opens.length_lt (h : Opens cs part body) : body.length < cs.length := by
  cases h <;> simp only [List.length_cons] <;> omega

theorem exists_opens (cs : List Char) : ∃ part body, Opens ('"' :: cs) part body := by
  by_cases h : ['"', '"'] <+: cs
  · obtain ⟨body, rfl⟩ := h
    exact ⟨.raw, body, .raw body⟩
  · exact ⟨.quoted, cs, .quoted h⟩

theorem Reads.suffix (h : Reads part cs closed inner rest) : rest <:+ cs := by
  induction h with
  | ended _ => exact List.suffix_refl _
  | plain _ _ ih => exact ih.trans (List.suffix_cons _ _)
  | lineEnd _ _ => exact List.suffix_refl _
  | close cs => exact List.suffix_cons _ _
  | escape _ ih => exact (ih.trans (List.suffix_cons _ _)).trans (List.suffix_cons _ _)
  | escapeEnd => exact List.nil_suffix
  | rawClose _ ih => exact ih.trans (List.suffix_append ['"', '"', '"'] _)
  | rawQuote _ ih => exact ih.trans (List.suffix_cons _ _)
  | rawEnd _ => exact List.suffix_refl _
  | template _ _ _ iht ih => exact (ih.trans iht).trans (List.suffix_append ['$', '\x7b'] _)
  | openBrace _ ih => exact ih.trans (List.suffix_cons _ _)
  | closeBrace _ _ ih => exact ih.trans (List.suffix_cons _ _)
  | lastBrace cs _ => exact List.suffix_cons _ _
  | nested ho _ _ ihs ih =>
    rw [ho.eq_append]
    exact (ih.trans ihs).trans (List.suffix_append _ _)

/-- There is a reading of a text if there is one of each shorter text. -/
theorem exists_reads_step (part : Enclosure) (cs : List Char)
    (ih : ∀ part' cs', cs'.length < cs.length → ∃ closed inner rest,
      Reads part' cs' closed inner rest) : ∃ closed inner rest, Reads part cs closed inner rest := by
  -- What is opened inside is read first, then the rest, which is shorter.
  have both (first second : Enclosure) (cs' : List Char) (hlt : cs'.length < cs.length) :
      ∃ closed inner mid closed' inner' rest, Reads first cs' closed inner mid ∧
        Reads second mid closed' inner' rest := by
    obtain ⟨closed, inner, mid, hfirst⟩ := ih first cs' hlt
    obtain ⟨closed', inner', rest, hsecond⟩ :=
      ih second mid (Nat.lt_of_le_of_lt hfirst.suffix.length_le hlt)
    exact ⟨closed, inner, mid, closed', inner', rest, hfirst, hsecond⟩
  have template (hpart : part = .quoted ∨ part = .raw) (h : ['$', '\x7b'] <+: cs) :
      ∃ closed inner rest, Reads part cs closed inner rest := by
    obtain ⟨body, rfl⟩ := h
    obtain ⟨_, _, _, _, _, _, ht, hr⟩ :=
      both (.template 1) part body (by simp only [List.length_append, List.length_cons]; omega)
    exact ⟨_, _, _, .template hpart ht hr⟩
  cases cs with
  | nil =>
    by_cases hpart : part = .rawClosed
    · subst hpart
      exact ⟨_, _, _, .rawEnd (by simp)⟩
    · exact ⟨_, _, _, .ended hpart⟩
  | cons c cs =>
    have next (part' : Enclosure) := ih part' cs (Nat.lt_succ_self _)
    have plain (h : IsPlain c cs part) : ∃ closed inner rest,
        Reads part (c :: cs) closed inner rest := by
      obtain ⟨_, _, _, hr⟩ := next part
      exact ⟨_, _, _, .plain h hr⟩
    cases part with
    | quoted =>
      by_cases hline : Trivia.isLineEnd c = true
      · exact ⟨_, _, _, .lineEnd cs hline⟩
      by_cases hquote : c = '"'
      · exact hquote ▸ ⟨_, _, _, .close cs⟩
      by_cases hescape : c = '\\'
      · subst hescape
        cases cs with
        | nil => exact ⟨_, _, _, .escapeEnd⟩
        | cons d cs =>
          obtain ⟨_, _, _, hr⟩ := ih .quoted cs (by simp only [List.length_cons]; omega)
          exact ⟨_, _, _, .escape hr⟩
      by_cases htemplate : ['$', '\x7b'] <+: c :: cs
      · exact template (.inl rfl) htemplate
      · exact plain ⟨hquote, hescape, Bool.eq_false_iff.mpr hline, htemplate⟩
    | raw =>
      by_cases hquotes : ['"', '"', '"'] <+: c :: cs
      · obtain ⟨body, hbody⟩ := hquotes
        rw [← hbody] at ih ⊢
        obtain ⟨_, _, _, hr⟩ := ih .rawClosed body
          (by simp only [List.length_append, List.length_cons]; omega)
        exact ⟨_, _, _, .rawClose hr⟩
      by_cases htemplate : ['$', '\x7b'] <+: c :: cs
      · exact template (.inr rfl) htemplate
      · exact plain ⟨hquotes, htemplate⟩
    | rawClosed =>
      by_cases hquote : c = '"'
      · subst hquote
        obtain ⟨_, _, _, hr⟩ := next .rawClosed
        exact ⟨_, _, _, .rawQuote hr⟩
      · exact ⟨_, _, _, .rawEnd (by simpa using hquote)⟩
    | template depth =>
      by_cases hopen : c = '\x7b'
      · subst hopen
        obtain ⟨_, _, _, hr⟩ := next (.template (depth + 1))
        exact ⟨_, _, _, .openBrace hr⟩
      by_cases hclose : c = '\x7d'
      · subst hclose
        by_cases hdepth : depth ≤ 1
        · exact ⟨_, _, _, .lastBrace cs hdepth⟩
        · obtain ⟨_, _, _, hr⟩ := next (.template (depth - 1))
          exact ⟨_, _, _, .closeBrace hdepth hr⟩
      by_cases hquote : c = '"'
      · subst hquote
        obtain ⟨inside, body, ho⟩ := exists_opens cs
        obtain ⟨_, _, _, _, _, _, hs, hr⟩ := both inside (.template depth) body ho.length_lt
        exact ⟨_, _, _, .nested ho hs hr⟩
      · exact plain ⟨hquote, hopen, hclose⟩

theorem exists_reads (part : Enclosure) (cs : List Char) :
    ∃ closed inner rest, Reads part cs closed inner rest := by
  induction hn : cs.length using Nat.strong_induction_on generalizing part cs with
  | _ n ih =>
    subst hn
    exact exists_reads_step part cs fun part' cs' hlt => ih _ hlt part' cs' rfl

/-- What stands before the rest of a closed string ends with its quotes. -/
def EndsWell (cs rest : List Char) : Enclosure → Prop
  | .quoted => ∃ front, cs = front ++ '"' :: rest
  | .raw => ∃ front, cs = front ++ '"' :: '"' :: '"' :: rest
  | .rawClosed => ∃ n, cs = List.replicate n '"' ++ rest
  | .template _ => True

theorem EndsWell.append_left (h : EndsWell cs rest part) (hpart : part ≠ .rawClosed)
    (front : List Char) : EndsWell (front ++ cs) rest part := by
  cases part with
  | rawClosed => exact absurd rfl hpart
  | template _ => trivial
  | quoted | raw =>
    obtain ⟨back, rfl⟩ := h
    exact ⟨front ++ back, (List.append_assoc _ _ _).symm⟩

theorem Reads.endsWell (h : Reads part cs closed inner rest) (hclosed : closed = true) :
    EndsWell cs rest part := by
  induction h with
  | ended _ => cases hclosed
  | @plain part c cs _ _ _ hp _ ih =>
    have hpart : part ≠ .rawClosed := by
      rintro rfl
      exact hp
    exact (ih hclosed).append_left hpart [c]
  | lineEnd _ _ => cases hclosed
  | close cs => exact ⟨[], rfl⟩
  | @escape c _ _ _ _ _ ih => exact (ih hclosed).append_left nofun ['\\', c]
  | escapeEnd => cases hclosed
  | rawClose _ ih =>
    -- The quotes that are more than three come first.
    obtain ⟨n, rfl⟩ := ih hclosed
    have hcomm : List.replicate 3 '"' ++ List.replicate n '"' =
        List.replicate n '"' ++ List.replicate 3 '"' := by
      rw [List.replicate_append_replicate, List.replicate_append_replicate, Nat.add_comm]
    refine ⟨List.replicate n '"', ?_⟩
    change List.replicate 3 '"' ++ (List.replicate n '"' ++ _) =
      List.replicate n '"' ++ (List.replicate 3 '"' ++ _)
    rw [← List.append_assoc, hcomm, List.append_assoc]
  | rawQuote _ ih =>
    obtain ⟨n, rfl⟩ := ih hclosed
    exact ⟨n + 1, rfl⟩
  | rawEnd _ => exact ⟨0, rfl⟩
  | @template part cs mid _ _ _ _ _ hpart ht _ _ ih =>
    obtain ⟨front, rfl⟩ := ht.suffix
    have hne : part ≠ .rawClosed := by
      rintro rfl
      rcases hpart with hpart | hpart <;> cases hpart
    exact (ih hclosed).append_left hne ('$' :: '\x7b' :: front)
  | openBrace | closeBrace | lastBrace | nested => trivial

/-- A string that is closed is its quotes and what is between them. -/
theorem Reads.eq_between (ho : Opens cs part body) (h : Reads part body true inner rest) :
    ∃ between, cs = (part.quotes ++ between ++ part.quotes) ++ rest := by
  have hend := h.endsWell rfl
  rw [ho.eq_append]
  rcases ho.isString with rfl | rfl <;> obtain ⟨between, rfl⟩ := hend <;>
    exact ⟨between, by simp [Enclosure.quotes]⟩

/-- What can be open around a string or a template: a template around a string, or nothing, and a string
around a template. -/
def Fits : Enclosure → List Enclosure → Prop
  | .template _, .quoted :: _ | .template _, .raw :: _ => True
  | .template _, _ => False
  | _, [] | _, .template _ :: _ => True
  | _, _ => False

theorem Opens.fits (h : Opens cs part body) (depth : Nat) (outer : List Enclosure) :
    Fits part (.template depth :: outer) := by
  cases h <;> trivial

section
variable {outer : List Enclosure}

theorem fits_template (h : part = .quoted ∨ part = .raw) (depth : Nat) :
    Fits (.template depth) (part :: outer) := by
  rcases h with rfl | rfl <;> trivial

/-- A string ends where it has to without regard to what is open around it. -/
theorem leave_outer (h : Fits part outer) (hpart : part = .quoted ∨ part = .rawClosed) (c : Char) :
    leave c outer = outer ∧ ∀ flags, cutOff c outer flags = flags := by
  rcases hpart with rfl | rfl <;> cases outer with
  | nil => exact ⟨rfl, fun _ => rfl⟩
  | cons next outer =>
    cases next with
    | template _ => exact ⟨rfl, fun _ => rfl⟩
    | quoted | raw | rawClosed => exact h.elim

end

/-- Flags that differ in nothing but whether a template was met. -/
def SameEnd (flags flags' : TokenFlags) : Prop := flags'.unterminated = flags.unterminated

/-- At a dollar sign that opens no template the scan goes on, whatever it notes of what is next. -/
theorem closeString_dollar (flags : TokenFlags) (hpart : part = .quoted ∨ part = .raw)
    (outer : List Enclosure) (h : ¬ ['$', '\x7b'] <+: '$' :: cs) : ∃ flags', SameEnd flags flags' ∧
      closeString flags (part :: outer) ('$' :: cs) = closeString flags' (part :: outer) cs := by
  have hline : Trivia.isLineEnd '$' = false := by decide
  cases cs with
  | nil =>
    refine ⟨flags, rfl, ?_⟩
    rcases hpart with rfl | rfl <;> rw [closeString, closeString] <;>
      simp [leave, cutOff, hline]
  | cons d cs =>
    have hd : d ≠ '\x7b' := by
      rintro rfl
      exact h ⟨cs, rfl⟩
    refine ⟨if d.isAlpha ∨ d = '_' then { flags with template := true } else flags, ?_, ?_⟩
    · unfold SameEnd
      split <;> rfl
    · rcases hpart with rfl | rfl <;> rw [closeString] <;> simp [leave, cutOff, hline]

theorem closeString_plain (h : IsPlain c cs part) (flags : TokenFlags) (outer : List Enclosure) :
    ∃ flags', SameEnd flags flags' ∧
      closeString flags (part :: outer) (c :: cs) = closeString flags' (part :: outer) cs := by
  -- Only a dollar sign says something of the string: it may begin a template, and here it does not.
  by_cases hdollar : c = '$' ∧ (part = .quoted ∨ part = .raw)
  · obtain ⟨rfl, hpart⟩ := hdollar
    refine closeString_dollar flags hpart outer ?_
    rcases hpart with rfl | rfl
    · exact h.2.2.2
    · exact h.2
  refine ⟨flags, rfl, ?_⟩
  rw [closeString]
  -- The character is none of those that the enclosing part looks at.
  cases part with
  | quoted =>
    obtain ⟨hquote, hescape, hline, -⟩ := h
    have hother : c ≠ '$' := fun hc => hdollar ⟨hc, .inl rfl⟩
    simp [leave, cutOff, hline, hquote, hescape, hother]
  | raw =>
    have hother : c ≠ '$' := fun hc => hdollar ⟨hc, .inr rfl⟩
    simp only [leave, cutOff, if_neg hother]
    split
    · rename_i hquote
      split
      · rename_i rest
        exact absurd ⟨rest, by rw [hquote]; rfl⟩ h.1
      · rfl
    · rfl
  | rawClosed => exact h.elim
  | template depth =>
    obtain ⟨hquote, hopen, hclose⟩ := h
    simp [leave, cutOff, hquote, hopen, hclose]

theorem closeString_opens (h : Opens cs part body) (flags : TokenFlags) (depth : Nat)
    (outer : List Enclosure) : closeString flags (.template depth :: outer) cs =
      closeString flags (part :: .template depth :: outer) body := by
  cases h with
  | raw cs =>
    rw [closeString]
    simp [leave, cutOff]
  | @quoted cs h =>
    rw [closeString]
    simp only [leave, cutOff]
    split
    · rename_i hc
      exact absurd hc (by decide)
    split
    · rename_i hc
      exact absurd hc (by decide)
    rw [if_pos trivial]
    split
    · rename_i rest
      exact absurd ⟨rest, rfl⟩ h
    · rfl

/-- Where a part ends that was cut off, or closed before, what is open around it goes on. -/
theorem closeString_leaves (flags : TokenFlags) {outer : List Enclosure} (hfits : Fits part outer)
    (hpart : part = .quoted ∨ part = .rawClosed) (h : leave c (part :: outer) = outer) :
    closeString flags (part :: outer) (c :: cs) =
      closeString (cutOff c (part :: outer) flags) outer (c :: cs) := by
  obtain ⟨hleave, hcut⟩ := leave_outer hfits hpart c
  rw [closeString, closeString, h, hleave, hcut]

theorem closeString_ended (hpart : part ≠ .rawClosed) (flags : TokenFlags) (outer : List Enclosure) :
    closeString flags (part :: outer) [] = closeString { flags with unterminated := true } outer [] := by
  rw [closeString, closeString]
  simp [hpart]

/-- The scan of some text, with certain enclosures open, comes to what the scan of the rest comes to
without the innermost of them, and has noted whether something was not closed on the way. -/
def ScansAs (part : Enclosure) (cs : List Char) (complete : Bool) (rest : List Char) : Prop :=
  ∀ flags outer, Fits part outer → ∃ flags' : TokenFlags,
    closeString flags (part :: outer) cs = closeString flags' outer rest ∧
      flags'.unterminated = (flags.unterminated || !complete)

/-- A step inside a part, from which the scan goes on as from there. -/
theorem ScansAs.of_step {part' : Enclosure} {cs' : List Char} {complete : Bool}
    (h : ScansAs part' cs' complete rest) (hfits : ∀ outer, Fits part outer → Fits part' outer)
    (hstep : ∀ flags outer, ∃ flags', SameEnd flags flags' ∧
      closeString flags (part :: outer) cs = closeString flags' (part' :: outer) cs') :
    ScansAs part cs complete rest := by
  intro flags outer hfit
  obtain ⟨mid, hflags, hmid⟩ := hstep flags outer
  obtain ⟨last, hlast, hflags'⟩ := h mid outer (hfits outer hfit)
  exact ⟨last, hmid.trans hlast, by rw [hflags', hflags]⟩

/-- A part that opens inside another one is scanned first. -/
theorem ScansAs.of_part {part' : Enclosure} {mid : List Char} {complete complete' : Bool}
    (hpart : ScansAs part' body complete' mid) (h : ScansAs part mid complete rest)
    (hfits : ∀ outer, Fits part' (part :: outer))
    (hstep : ∀ flags outer, ∃ flags', SameEnd flags flags' ∧
      closeString flags (part :: outer) cs = closeString flags' (part' :: part :: outer) body) :
    ScansAs part cs (complete' && complete) rest := by
  intro flags outer hfit
  obtain ⟨first, hflags, hfirst⟩ := hstep flags outer
  obtain ⟨second, hsecond, hflags'⟩ := hpart first (part :: outer) (hfits outer)
  obtain ⟨last, hlast, hflags''⟩ := h second outer hfit
  refine ⟨last, (hfirst.trans hsecond).trans hlast, ?_⟩
  rw [hflags'', hflags', hflags, Bool.not_and, Bool.or_assoc]

theorem fits_template_congr (depth depth' : Nat) {outer : List Enclosure}
    (h : Fits (.template depth) outer) : Fits (.template depth') outer := by
  unfold Fits at h ⊢
  split at h <;> simp_all

theorem Reads.scansAs (h : Reads part cs closed inner rest) :
    ScansAs part cs (closed && inner) rest := by
  have hquote : Trivia.isLineEnd '"' = false := by decide
  have hescape : Trivia.isLineEnd '\\' = false := by decide
  have hdollar : Trivia.isLineEnd '$' = false := by decide
  -- One step of the scan for each rule. What is open around a part is only looked at where the part ends.
  induction h with
  | ended hpart =>
    intro flags outer _
    exact ⟨_, closeString_ended hpart flags outer, by simp⟩
  | plain hplain _ ih => exact ih.of_step (fun _ h => h) (closeString_plain hplain)
  | lineEnd cs hline =>
    intro flags outer hfits
    refine ⟨_, closeString_leaves flags hfits (.inl rfl) (by simp [leave, hline]), ?_⟩
    simp [cutOff, hline]
  | close cs =>
    intro flags outer _
    refine ⟨flags, ?_, by simp⟩
    rw [closeString]
    simp [leave, cutOff, hquote]
  | escape _ ih =>
    refine ih.of_step (fun _ h => h) fun flags outer => ⟨flags, rfl, ?_⟩
    rw [closeString]
    simp [leave, cutOff, hescape]
  | escapeEnd =>
    intro flags outer _
    refine ⟨{ flags with unterminated := true }, ?_, by simp⟩
    rw [closeString, closeString]
    simp [leave, cutOff, hescape]
  | rawClose _ ih =>
    refine ih.of_step (fun outer h => ?_) fun flags outer => ⟨flags, rfl, ?_⟩
    · unfold Fits at h ⊢
      split at h <;> simp_all
    · rw [closeString]
      simp [leave, cutOff]
  | rawQuote _ ih =>
    refine ih.of_step (fun _ h => h) fun flags outer => ⟨flags, rfl, ?_⟩
    rw [closeString]
    simp [leave, cutOff]
  | @rawEnd cs hcs =>
    intro flags outer hfits
    refine ⟨flags, ?_, by simp⟩
    cases cs with
    | nil =>
      rw [closeString, closeString]
      cases outer with
      | nil => simp
      | cons next outer => cases next <;> simp_all [Fits]
    | cons c cs =>
      have hc : c ≠ '"' := by simpa using hcs
      exact closeString_leaves flags hfits (.inr rfl) (by simp [leave, hc])
  | template hpart _ _ iht ih =>
    rw [Bool.and_left_comm]
    refine iht.of_part ih (fun outer => fits_template hpart 1) fun flags outer => ?_
    refine ⟨{ flags with template := true }, rfl, ?_⟩
    rcases hpart with rfl | rfl <;> rw [closeString] <;> simp [leave, cutOff, hdollar]
  | openBrace _ ih =>
    refine ih.of_step (fun _ => fits_template_congr _ _) fun flags outer => ⟨flags, rfl, ?_⟩
    rw [closeString]
    simp [leave, cutOff]
  | closeBrace hdepth _ ih =>
    refine ih.of_step (fun _ => fits_template_congr _ _) fun flags outer => ⟨flags, rfl, ?_⟩
    rw [closeString]
    simp [leave, cutOff, hdepth]
  | lastBrace cs hdepth =>
    intro flags outer _
    refine ⟨flags, ?_, by simp⟩
    rw [closeString]
    simp [leave, cutOff, hdepth]
  | nested ho _ _ ihs ih =>
    rw [Bool.and_left_comm]
    exact ihs.of_part ih (ho.fits _) fun flags outer => ⟨flags, rfl, closeString_opens ho flags _ outer⟩

/-- Where nothing is open, the scan of a string is over. -/
theorem closeString_nil (flags : TokenFlags) (cs : List Char) :
    closeString flags [] cs = (flags, cs) := by
  cases cs with
  | nil => rw [closeString, if_pos (.inr rfl)]
  | cons c cs =>
    rw [closeString]
    rfl

theorem string_of_opens (h : Opens cs part body) : ∃ flags : TokenFlags,
    flags.unterminated = false ∧ string cs = closeString flags [part] body := by
  cases h with
  | raw cs => exact ⟨_, rfl, rfl⟩
  | @quoted cs h =>
    refine ⟨{}, rfl, ?_⟩
    unfold string
    split
    · rename_i rest hcs
      obtain ⟨-, rfl⟩ := List.cons.inj hcs
      exact absurd ⟨rest, rfl⟩ h
    · rename_i rest _ hcs
      rw [(List.cons.inj hcs).2]
    · rename_i hcs
      cases hcs

theorem Reads.string (ho : Opens cs part body) (h : Reads part body closed inner rest) :
    (string cs).2 = rest ∧ (string cs).1.unterminated = !(closed && inner) := by
  obtain ⟨flags, hflags, hstring⟩ := string_of_opens ho
  have hfits : Fits part [] := by
    rcases ho.isString with rfl | rfl <;> trivial
  obtain ⟨flags', hclose, hflags'⟩ := h.scansAs flags [] hfits
  rw [hstring, hclose, closeString_nil, hflags', hflags]
  exact ⟨rfl, Bool.false_or _⟩

end Literal

namespace Token

open Literal

/-- Wherever a string of a source stands, it reads in some way from its quotes on, and its text goes as far
as that. It is unterminated if its own quotes are missing, or if something inside its templates is not
closed. Unless its own quotes are missing, its text is between them. -/
theorem string_unterminated_iff (source : String) (t : Token) (ht : t ∈ ofSource source)
    (hkind : t.kind = .stringLiteral) : ∃ (front text : String) (part : Enclosure) (body : List Char),
      front ++ text = source ∧ front.utf8ByteSize = t.place ∧ Opens text.toList part body ∧
      (∃ closed inner rest, Reads part body closed inner rest) ∧
      ∀ closed inner rest, Reads part body closed inner rest →
        t.text ++ String.ofList rest = text ∧
        (t.flags.unterminated ↔ closed = false ∨ inner = false) ∧
        (closed → ∃ between, t.text.toList = part.quotes ++ between ++ part.quotes) := by
  obtain ⟨front, cs, hfront, hplace, hkind', hflags, htext⟩ := exists_lexeme_of_mem ht
  obtain ⟨tail, rfl, hflags', hrest⟩ := lexeme_of_stringLiteral (hkind'.trans hkind)
  obtain ⟨part, body, ho⟩ := exists_opens tail
  refine ⟨front, String.ofList ('"' :: tail), part, body, hfront, hplace, ?_, exists_reads part body,
    fun closed inner rest h => ?_⟩
  -- The literal has been scanned from its quote on, so what its body reads as decides.
  · rwa [String.toList_ofList]
  obtain ⟨hstring, hunterminated⟩ := h.string ho
  rw [hrest, hstring] at htext
  refine ⟨?_, ?_, fun hclosed => ?_⟩
  · rw [← htext, String.ofList_append, String.ofList_toList]
  · rw [← hflags, hflags', hunterminated]
    cases closed <;> cases inner <;> decide
  · subst hclosed
    obtain ⟨between, hbetween⟩ := h.eq_between ho
    exact ⟨between, List.append_cancel_right (htext.trans hbetween)⟩

/-- A string whose own quotes are there, but not those of the string in its template, which the end of the
line cuts off. -/
theorem string_unterminated_iff_nested :
    let source := "\"$\x7b\"\n\x7d\""
    ∃ t ∈ ofSource source, t.kind = .stringLiteral ∧ t.flags.unterminated ∧
      ∃ between, t.text.toList = ['"'] ++ between ++ ['"'] := by
  intro source
  let t : Token :=
    { kind := .stringLiteral, flags := { template := true, unterminated := true }, text := source }
  have ht : t ∈ ofSource source := by decide +kernel
  obtain ⟨front, text, part, body, hfront, hplace, ho, -, hreads⟩ :=
    string_unterminated_iff source t ht rfl
  have hempty : front = "" := String.utf8ByteSize_eq_zero_iff.mp hplace
  -- The source is the literal alone.
  have htext : text.toList = ['"', '$', '\x7b', '"', '\n', '\x7d', '"'] := by
    rw [show text = source by rw [← hfront, hempty, String.empty_append]]
    decide +kernel
  rw [htext] at ho
  -- The template holds a string that a line end cuts off; the outer one is closed after it.
  have hread : Reads .quoted ['$', '\x7b', '"', '\n', '\x7d', '"'] true false [] :=
    .template (.inl rfl)
      (.nested (.quoted (by decide)) (.lineEnd _ (by decide))
        (.plain ⟨by decide, by decide, by decide⟩ (.lastBrace _ le_rfl)))
      (.close [])
  cases ho with
  | quoted _ =>
    obtain ⟨-, hflag, hbetween⟩ := hreads true false [] hread
    exact ⟨t, ht, rfl, hflag.mpr (.inr rfl), hbetween rfl⟩

end Token

end KotlinTree
