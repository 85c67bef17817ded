import KotlinTree.Proofs.Grammar.Primitive

/-!
How far kept source goes. A run of tokens is kept that the grammar does not cover: one bracket that
closes nothing, or all tokens up to the first one outside brackets that ends a construct. Main
statement: what is kept before the end of the file is such a run, and never empty.
-/

namespace KotlinTree.Grammar

/-- How many brackets some tokens open. -/
def opened (ts : List Token) : Nat := ts.countP fun t => isOpener t.kind

/-- How many brackets some tokens close. -/
def closed (ts : List Token) : Nat := ts.countP fun t => isCloser t.kind

/-- No bracket is closed before it is opened, whatever its shape. -/
def Nests (ts : List Token) : Prop := ∀ front, front <+: ts → closed front ≤ opened front

/-- Outside brackets, a construct goes no further than such a token: the end of the file, a bracket
that closes another construct, a semicolon, or the first token of a line that does not go on with the
line before. -/
def isBoundary (t : Token) : Bool :=
  t.isEnd || isCloser t.kind || t.kind = .semicolon || (t.startsLine && !isContinuation t)

/-- The tokens of a construct that goes up to the first boundary outside brackets. -/
structure Stretch (run : List Token) (next : Token) : Prop where
  nests : Nests run
  balanced : opened run = closed run ∨ next.isEnd = true
  boundary : isBoundary next = true
  first : ∀ front t back, run = front ++ t :: back → front ≠ [] → opened front = closed front →
    isBoundary t = false

/-- Some tokens are taken from the front. After the last of all comes an end of the file. -/
def Consumes (s : State) (run : List Token) (s' : State) : Prop :=
  s.tokens = run ++ s'.tokens ∨ s.tokens = run ∧ ∃ place, s'.tokens = [.endAt place]

/-- Some nodes are the leaves of some tokens, in order. -/
def Leaves (f : Forest) (ids : Array NodeId) (ts : List Token) : Prop :=
  List.Forall₂ (fun i t => f.IsLeafOf i t.kind t) ids.toList ts

/-- A run of tokens has been kept: one bracket that closes nothing, or a stretch. -/
structure Kept (s : State) (run : List Token) (s' : State) (children : Array NodeId) : Prop where
  nonempty : run ≠ []
  consumes : Consumes s run s'
  real : ∀ t ∈ run, t.isEnd = false
  leaves : Leaves s'.forest children run
  extent : (∃ closer, run = [closer] ∧ isCloser closer.kind = true) ∨ Stretch run s'.current

section
variable {ts run : List Token} {t next : Token}

theorem opened_concat (ts : List Token) (t : Token) :
    opened (ts ++ [t]) = opened ts + if isOpener t.kind then 1 else 0 := by
  simp [opened, List.countP_cons]

theorem closed_concat (ts : List Token) (t : Token) :
    closed (ts ++ [t]) = closed ts + if isCloser t.kind then 1 else 0 := by
  simp [closed, List.countP_cons]

theorem isCloser_of_isOpener {k : TokenKind} (h : isOpener k = true) : isCloser k = false := by
  cases k <;> first | rfl | cases h

theorem nests_nil : Nests [] := fun _ hf => by rw [List.prefix_nil.mp hf]; exact le_rfl

theorem Nests.concat (h : Nests ts) (ht : closed (ts ++ [t]) ≤ opened (ts ++ [t])) :
    Nests (ts ++ [t]) := by
  intro front hf
  rcases List.prefix_concat_iff.mp hf with rfl | hf
  · exact ht
  · exact h front hf

end

section
variable {s t t' : State} {run : List Token} {id : NodeId}

theorem consumes_nil (s : State) : Consumes s [] s := .inl rfl

/-- Tokens after the end of the file are not taken, so nothing has been left out so far. -/
theorem Consumes.bumpAs {k : TokenKind} (h : Consumes s run t) (hend : t.current.isEnd = false)
    (hb : Runs (bumpAs k) t id t') : Consumes s (run ++ [t.current]) t' := by
  obtain ⟨-, rfl⟩ := runs_bumpAs.mp hb
  have htokens : s.tokens = run ++ t.tokens := by
    rcases h with h | ⟨-, place, h⟩
    · exact h
    · obtain ⟨hcurrent, -⟩ := List.cons.inj h
      rw [hcurrent] at hend
      cases hend
  unfold Consumes State.advance
  cases hahead : t.ahead with
  | nil =>
    right
    refine ⟨?_, _, rfl⟩
    rw [htokens, State.tokens, hahead]
  | cons u us =>
    left
    rw [htokens, State.tokens, hahead, List.append_assoc]
    rfl

theorem Leaves.bumpAs {ids : Array NodeId} (h : Leaves t.forest ids run)
    (hb : Runs (bumpAs t.current.kind) t id t') :
    Leaves t'.forest (ids.push id) (run ++ [t.current]) := by
  unfold Leaves
  rw [Array.toList_push]
  refine List.rel_append (h.imp fun _ _ hi => IsLeafOf.bumpAs hi hb) ?_
  exact .cons (isLeafOf_bumpAs hb) .nil

/-- How far a state is from the end of the file, in tokens. -/
def State.left (s : State) : Nat := if s.current.isEnd then 0 else s.ahead.length + 1

theorem left_le (s : State) : s.left ≤ s.ahead.length + 1 := by
  unfold State.left
  split <;> omega

theorem left_lt_of_bumpAs {k : TokenKind} (hend : t.current.isEnd = false)
    (hb : Runs (bumpAs k) t id t') : t'.left < t.left := by
  obtain ⟨-, rfl⟩ := runs_bumpAs.mp hb
  have ht : t.left = t.ahead.length + 1 := if_neg (by simp [hend])
  rw [ht]
  unfold State.advance
  cases hahead : t.ahead with
  | nil => simp [State.left, Token.endAt, Token.isEnd]
  | cons u us =>
    have hle := left_le { t with forest := t.leafed k, current := u, ahead := us }
    rw [List.length_cons]
    exact Nat.lt_succ_of_le hle

end

/-- The loop is inside so many brackets of what it has taken, and no boundary has been passed. -/
structure Keeping (s : State) (run : List Token) (t : State) (children : Array NodeId) (depth : Nat) :
    Prop where
  started : run = [] → t.current.isEnd = false
  consumes : Consumes s run t
  real : ∀ u ∈ run, u.isEnd = false
  leaves : Leaves t.forest children run
  nests : Nests run
  depth : opened run = closed run + depth
  first : ∀ front u back, run = front ++ u :: back → front ≠ [] → opened front = closed front →
    isBoundary u = false

section
variable {s t t' : State} {run : List Token} {children : Array NodeId} {depth : Nat} {id : NodeId}

theorem keeping_nil (hs : s.current.isEnd = false) : Keeping s [] s #[] 0 where
  started _ := hs
  consumes := consumes_nil s
  real := by simp
  leaves := .nil
  nests := nests_nil
  depth := rfl
  first front u back h := by simp at h

theorem Keeping.run_eq_nil_iff (h : Keeping s run t children depth) :
    run = [] ↔ children.isEmpty = true := by
  have hlength := h.leaves.length_eq
  rw [Array.isEmpty_iff_size_eq_zero, ← List.length_eq_zero_iff, ← hlength, Array.length_toList]

theorem Keeping.real_concat (h : Keeping s run t children depth) (hend : t.current.isEnd = false) :
    ∀ u ∈ run ++ [t.current], u.isEnd = false := by
  intro u hu
  rcases List.mem_append.mp hu with hu | hu
  · exact h.real u hu
  · rw [List.mem_singleton.mp hu]
    exact hend

/-- A closer is taken inside brackets only: outside it would be a boundary, or the first token. -/
theorem Keeping.depth_concat (h : Keeping s run t children depth)
    (hcloser : isCloser t.current.kind = true → 0 < depth) :
    opened (run ++ [t.current]) = closed (run ++ [t.current]) +
      if isOpener t.current.kind then depth + 1
        else if isCloser t.current.kind then depth - 1 else depth := by
  have hdepth := h.depth
  rw [opened_concat, closed_concat]
  cases ho : isOpener t.current.kind with
  | true =>
    simp only [isCloser_of_isOpener ho, if_true, Bool.false_eq_true, if_false]
    omega
  | false =>
    cases hc : isCloser t.current.kind with
    | true =>
      have hpos := hcloser hc
      simp only [Bool.false_eq_true, if_false, if_true]
      omega
    | false =>
      simp only [Bool.false_eq_true, if_false]
      omega

/-- A token that is no boundary goes on with the run; so does one inside brackets, and the first one
unless it closes a bracket. -/
theorem Keeping.bump (h : Keeping s run t children depth) (hend : t.current.isEnd = false)
    (hinside : children.isEmpty = false → depth = 0 → isBoundary t.current = false)
    (hfirst : children.isEmpty = true → isCloser t.current.kind = false)
    (hb : Runs Grammar.bump t id t') :
    Keeping s (run ++ [t.current]) t' (children.push id)
      (if isOpener t.current.kind then depth + 1
        else if isCloser t.current.kind then depth - 1 else depth) := by
  have hb := runs_bump.mp hb
  have hcloser : isCloser t.current.kind = true → 0 < depth := by
    intro hc
    apply Nat.pos_of_ne_zero
    intro hd
    cases he : children.isEmpty with
    | true => exact absurd (hfirst he) (by simp [hc])
    | false =>
      have hbound := hinside he hd
      simp [isBoundary, hc] at hbound
  have hdepth := h.depth_concat hcloser
  refine ⟨by simp, h.consumes.bumpAs hend hb, h.real_concat hend, h.leaves.bumpAs hb,
    h.nests.concat ?_, hdepth, ?_⟩
  · rw [hdepth]
    exact Nat.le_add_right _ _
  · intro front u back hrun hfront hbalanced
    rcases List.eq_nil_or_concat' back with rfl | ⟨init, last, rfl⟩
    · -- The new token itself comes after all of the run so far.
      obtain ⟨rfl, hu⟩ := List.append_inj' hrun rfl
      obtain ⟨rfl, -⟩ := List.cons.inj hu
      refine hinside ?_ ?_
      · rw [Bool.eq_false_iff]
        exact fun he => hfront (h.run_eq_nil_iff.mpr he)
      · have hdepth := h.depth
        omega
    · have hsplit : run ++ [t.current] = (front ++ u :: init) ++ [last] := by
        rw [hrun, List.append_assoc, List.cons_append]
      obtain ⟨hrun, -⟩ := List.append_inj' hsplit rfl
      exact h.first front u init hrun hfront hbalanced

/-- The run ends outside brackets, or at the end of the file. -/
theorem Keeping.kept (h : Keeping s run t children depth)
    (hstop : t.current.isEnd = true ∨
      children.isEmpty = false ∧ depth = 0 ∧ isBoundary t.current = true) :
    Kept s run t children where
  nonempty hrun := by
    -- At the start nothing is kept, so what stops there is not the end of the file but a boundary
    -- after something.
    rcases hstop with hend | ⟨hne, -⟩
    · rw [h.started hrun] at hend
      cases hend
    · rw [h.run_eq_nil_iff.mp hrun] at hne
      cases hne
  consumes := h.consumes
  real := h.real
  leaves := h.leaves
  extent := by
    right
    refine ⟨h.nests, ?_, ?_, h.first⟩
    · rcases hstop with hend | ⟨-, hd, -⟩
      · exact .inr hend
      · left
        rw [h.depth, hd, Nat.add_zero]
    · rcases hstop with hend | ⟨-, -, hb⟩
      · simp [isBoundary, hend]
      · exact hb

/-- A bracket at the very front that closes nothing is kept alone. -/
theorem Keeping.kept_closer (h : Keeping s run t children depth) (hend : t.current.isEnd = false)
    (hfirst : children.isEmpty = true) (hcloser : isCloser t.current.kind = true)
    (hb : Runs Grammar.bump t id t') : Kept s (run ++ [t.current]) t' (children.push id) := by
  have hrun := h.run_eq_nil_iff.mpr hfirst
  have hb := runs_bump.mp hb
  refine ⟨by simp, h.consumes.bumpAs hend hb, h.real_concat hend, h.leaves.bumpAs hb, .inl ?_⟩
  exact ⟨t.current, by rw [hrun, List.nil_append], hcloser⟩

/-- One step takes a token and stays in the run, or stops where the run ends. -/
theorem unknownStep_keeping {r : Step (Array NodeId × Nat)} (h : Keeping s run t children depth)
    (hr : Runs (unknownStep (children, depth)) t r t') :
    r.Leaves (fun x => (∃ run, Keeping s run t' x.1 x.2) ∧ t'.left < t.left)
      fun x => ∃ run, Kept s run t' x.1 := by
  unfold unknownStep at hr
  have hr := runs_bind_get.mp hr
  obtain ⟨hend, hr⟩ | ⟨hend, hr⟩ := runs_ite.mp hr
  · obtain ⟨rfl, rfl⟩ := runs_pure.mp hr
    exact ⟨run, h.kept (.inl hend)⟩
  have hend : t.current.isEnd = false := Bool.eq_false_iff.mpr hend
  obtain ⟨hstop, hr⟩ | ⟨hgo, hr⟩ := runs_ite.mp hr
  · -- Something has been taken, and this token is a boundary outside brackets.
    obtain ⟨rfl, rfl⟩ := runs_pure.mp hr
    simp only [Bool.and_eq_true, Bool.not_eq_true', decide_eq_true_eq] at hstop
    obtain ⟨⟨hne, hd⟩, hb⟩ := hstop
    refine ⟨run, h.kept (.inr ⟨hne, hd, ?_⟩)⟩
    rw [isBoundary, Bool.or_assoc, Bool.or_assoc, ← Bool.or_assoc (isCloser _), hb, Bool.or_true]
  obtain ⟨hcloser, hr⟩ | ⟨hcloser, hr⟩ := runs_ite.mp hr
  · obtain ⟨hfirst, hcloser⟩ := Bool.and_eq_true_iff.mp hcloser
    obtain ⟨id, t₁, hb, hr⟩ := runs_bind.mp hr
    obtain ⟨rfl, rfl⟩ := runs_pure.mp hr
    exact ⟨_, h.kept_closer hend hfirst hcloser hb⟩
  · obtain ⟨id, t₁, hb, hr⟩ := runs_bind.mp hr
    obtain ⟨rfl, rfl⟩ := runs_pure.mp hr
    refine ⟨⟨_, h.bump hend ?_ ?_ hb⟩, left_lt_of_bumpAs hend (runs_bump.mp hb)⟩
    · intro hne hd
      rw [hne, hd] at hgo
      rw [isBoundary, hend]
      simpa using hgo
    · intro he
      simpa [he] using hcloser

/-- Each token is taken in one step, so the loop stops where the run ends and not before. -/
theorem repeating_unknownStep_kept {x : Array NodeId × Nat} (hs : s.current.isEnd = false)
    (h : Runs (repeating unknownStep (#[], 0)) s x t) : ∃ run, Kept s run t x.1 := by
  refine runs_repeating_ends (I := fun t x => ∃ run, Keeping s run t x.1 x.2)
    (Q := fun t x => ∃ run, Kept s run t x.1) left_le ?_ ⟨[], keeping_nil hs⟩ h
  rintro t ⟨children, depth⟩ r t' ⟨run, hk⟩ hr
  exact unknownStep_keeping hk hr

/-- What is kept stays kept as long as no more tokens are taken. -/
theorem Kept.settle (h : Kept s run t children) (htokens : t'.tokens = t.tokens)
    (hleaves : ∀ i k u, t.forest.IsLeafOf i k u → t'.forest.IsLeafOf i k u) :
    Kept s run t' children := by
  obtain ⟨hcurrent, hahead⟩ := List.cons.inj htokens
  refine ⟨h.nonempty, ?_, h.real, h.leaves.imp fun i u hi => hleaves i u.kind u hi, ?_⟩
  · unfold Consumes
    rw [htokens]
    exact h.consumes
  · rw [hcurrent]
    exact h.extent

theorem Kept.children_ne_empty (h : Kept s run t children) : children ≠ #[] := by
  rintro rfl
  exact h.nonempty (List.forall₂_nil_left_iff.mp h.leaves)

theorem Kept.node {k : NodeKind} {start : Nat} {data : NodeData} (h : Kept s run t children)
    (hn : Runs (Grammar.node k start children data) t id t') :
    t'.forest.kind? (some id) = some (.node k) ∧ Kept s run t' (t'.forest.children (some id)) := by
  have htokens : t'.tokens = t.tokens := by
    rw [← (runs_node.mp hn).2]
    rfl
  have hkept := h.settle htokens fun _ _ _ hi => IsLeafOf.node hi hn
  obtain ⟨rfl, rfl⟩ := runs_node.mp hn
  refine ⟨Forest.kind?_addNode t.forest k start children data, ?_⟩
  exact (Forest.children_addNode t.forest k start children data).symm ▸ hkept

/-- Marking the node changes nothing about what is kept in it. -/
theorem Kept.recovered {k : NodeKind} {made : NodeId}
    (h : Kept s run t (t.forest.children (some id))) (hk : t.forest.kind? (some id) = some (.node k))
    (hr : Runs (recovered id) t made t') : made = id ∧ t'.forest.kind? (some id) = some (.node k) ∧
      Kept s run t' (t'.forest.children (some id)) := by
  unfold Grammar.recovered at hr
  obtain ⟨⟨⟩, t₁, hc, hr⟩ := runs_bind.mp hr
  obtain ⟨⟨⟩, t₂, hd, hr⟩ := runs_bind.mp hr
  obtain ⟨rfl, rfl⟩ := runs_pure.mp hr
  have htokens : t₁.tokens = t.tokens := by
    rw [← runs_change.mp hc]
    rfl
  have hkept := h.settle htokens fun i k u hi => IsLeafOf.change hi cosmetic_recovered hc
  have hext : t.forest.Extends t₁.forest := by
    rw [← runs_change.mp hc]
    exact Forest.extends_modify cosmetic_recovered.kept
  rw [← hext.children_eq h.children_ne_empty] at hkept
  rw [runs_modify.mp hd]
  exact ⟨rfl, hext.kind? hk, hkept.settle rfl fun _ _ _ hi => hi⟩

end

/-- Before the end of the file, kept source takes at least one token, and goes no further than the
construct that it starts with. -/
theorem unknown_kept (s : State) (hs : s.current.isEnd = false) :
    ∃ run id s', Runs unknown s id s' ∧ s'.forest.kind? (some id) = some (.node .unknown) ∧
      Kept s run s' (s'.forest.children (some id)) := by
  have h := runs_self unknown s
  obtain ⟨⟨children, depth⟩, s₁, hr, hrest⟩ := runs_bind.mp (runs_bind_place.mp h)
  obtain ⟨made, s₂, hn, hrest⟩ := runs_bind.mp hrest
  obtain ⟨run, hkept⟩ := repeating_unknownStep_kept hs hr
  obtain ⟨hkind, hnoded⟩ := hkept.node hn
  obtain ⟨hid, hkind, hkept⟩ := hnoded.recovered hkind hrest
  rw [← hid] at hkind hkept
  exact ⟨run, _, _, h, hkind, hkept⟩

/-- A label with a lambda whose brace is on the same line, and a statement after it. -/
theorem unknown_kept_label :
    (State.ofSource "Sample.kt" "loop@ \x7b\n  a; b\n\x7d\nnext()").current.isEnd = false ∧
      ∃ run id s',
        Runs unknown (State.ofSource "Sample.kt" "loop@ \x7b\n  a; b\n\x7d\nnext()") id s' ∧
          s'.forest.kind? (some id) = some (.node .unknown) ∧
          Kept (State.ofSource "Sample.kt" "loop@ \x7b\n  a; b\n\x7d\nnext()") run s'
            (s'.forest.children (some id)) :=
  ⟨by decide +kernel, unknown_kept _ (by decide +kernel)⟩

end KotlinTree.Grammar
