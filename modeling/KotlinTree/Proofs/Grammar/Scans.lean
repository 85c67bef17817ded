import KotlinTree.Grammar.LookAhead
import KotlinTree.Proofs.Grammar.Placement

/-!
The scans over the tokens ahead, round by round: a round gives the answer, or goes on with what it has
counted and with the tokens that are left. Main statement: every scan of the grammar is such rounds, and
each of them that goes on comes to a token that starts later (`scans_of_left`).
-/

namespace KotlinTree.Grammar

/-- The tokens that are left of a source, none after its end. -/
def Left (source : String) (ts : List Token) : Prop := ts = [] ∨ Ahead source ts

/-- Both have tokens, and the first of them starts later in the second. -/
def StartsLater (ts us : List Token) : Prop :=
  ∃ t ∈ ts.head?, ∃ u ∈ us.head?, t.place < u.place

/-- A round goes from what has been counted and the tokens ahead to an answer, or to the next round. -/
abbrev ScanRound (σ α : Type) := σ → List Token → α ⊕ (σ × List Token)

/-- Rounds up to the one that answers. Each of those before it comes to a token that starts later. -/
inductive Scans {σ α : Type} (round : ScanRound σ α) : σ → List Token → α → Prop
  | answer {x : σ} {ts : List Token} {a : α} (h : round x ts = .inl a) : Scans round x ts a
  | goOn {x y : σ} {ts us : List Token} {a : α} (h : round x ts = .inr (y, us))
      (later : StartsLater ts us) (rest : Scans round y us a) : Scans round x ts a

section
variable {source : String} {t u : Token} {ts us vs : List Token}

theorem StartsLater.trans (h : StartsLater ts us) (h' : StartsLater us vs) : StartsLater ts vs := by
  obtain ⟨t, ht, u, hu, hlt⟩ := h
  obtain ⟨u', hu', v, hv, hlt'⟩ := h'
  obtain rfl : u = u' := Option.mem_unique hu hu'
  exact ⟨t, ht, v, hv, hlt.trans hlt'⟩

theorem left_tail (h : Left source (t :: ts)) : Left source ts := by
  obtain h | h := h
  · cases h
  · cases ts with
    | nil => exact .inl rfl
    | cons u us => exact .inr (Ahead.advance (s := { file := source, current := t, ahead := u :: us }) h)

/-- After a token before the end of the file there is one more, which starts later. -/
theorem startsLater_tail (h : Left source (t :: ts)) (hend : t.kind ≠ .endOfFile) :
    StartsLater (t :: ts) ts := by
  have hahead : Ahead source (t :: ts) := h.resolve_left (List.cons_ne_nil _ _)
  let s : State := { file := source, current := t, ahead := ts }
  have hend : s.current.isEnd = false := decide_eq_false hend
  have hplace := Ahead.place_lt_stop (s := s) hahead hend
  have hnext := Ahead.stop_le_advance (s := s) hahead
  cases ts with
  | nil =>
    rw [(Ahead.isEnd_iff (s := s) hahead).mpr rfl] at hend
    cases hend
  | cons u us => exact ⟨t, rfl, u, rfl, hplace.trans_le hnext⟩

/-- A scan is one round and, if the round goes on, the same scan from there on. -/
inductive OneRound {σ α : Type} (source : String) (round : ScanRound σ α) (scan : σ → List Token → α) (x : σ)
    (ts : List Token) : Prop
  | answer (h : round x ts = .inl (scan x ts))
  | goOn {y : σ} {us : List Token} (h : round x ts = .inr (y, us)) (same : scan x ts = scan y us)
      (left : Left source us) (later : StartsLater ts us) (fewer : us.length < ts.length)

/-- The round goes on after a token before the end of the file. -/
theorem OneRound.next {σ α : Type} {round : ScanRound σ α} {scan : σ → List Token → α} {x : σ} (y : σ)
    (h : Left source (t :: ts)) (hend : t.kind ≠ .endOfFile) (hround : round x (t :: ts) = .inr (y, ts))
    (same : scan x (t :: ts) = scan y ts) : OneRound source round scan x (t :: ts) :=
  .goOn hround same (left_tail h) (startsLater_tail h hend) (Nat.lt_succ_self _)

theorem scans_of_oneRound {σ α : Type} {round : ScanRound σ α} {scan : σ → List Token → α}
    (h : ∀ x ts, Left source ts → OneRound source round scan x ts) (x : σ) (hts : Left source ts) :
    Scans round x ts (scan x ts) := by
  induction hn : ts.length using Nat.strong_induction_on generalizing x ts with
  | h n ih =>
    cases h x ts hts with
    | answer hround => exact .answer hround
    | @goOn y us hround same left later fewer =>
      rw [same]
      exact .goOn hround later (ih us.length (hn ▸ fewer) y left rfl)

/-- One round of looking for what closes type arguments and follows them. -/
def closeRound : ScanRound Nat Bool
  | _, [] => .inl false
  | depth, token :: ahead =>
    if token.kind = .less then .inr (depth + 1, ahead)
    else if token.kind = .greater then
      if depth ≤ 1 then .inl (followsTypeArguments ahead) else .inr (depth - 1, ahead)
    else if isInTypeArguments token.kind then .inr (depth, ahead)
    else .inl false

theorem typeArgumentsClose_oneRound (depth : Nat) (ts : List Token) (h : Left source ts) :
    OneRound source closeRound typeArgumentsClose depth ts := by
  cases ts with
  | nil => exact .answer rfl
  | cons token ahead =>
    by_cases hless : token.kind = .less
    · exact .next (depth + 1) h (by simp [hless]) (by simp [closeRound, hless]) (by simp [typeArgumentsClose, hless])
    by_cases hgreater : token.kind = .greater
    · by_cases hdepth : depth ≤ 1
      · exact .answer (by simp [closeRound, typeArgumentsClose, hgreater, hdepth])
      · exact .next (depth - 1) h (by simp [hgreater]) (by simp [closeRound, hgreater, hdepth])
          (by simp [typeArgumentsClose, hgreater, hdepth])
    by_cases hin : isInTypeArguments token.kind = true
    · refine .next depth h (fun hend => ?_) (by simp [closeRound, hless, hgreater, hin])
        (by simp [typeArgumentsClose, hless, hgreater, hin])
      rw [hend] at hin
      exact absurd hin (by decide)
    · exact .answer (by simp [closeRound, typeArgumentsClose, hless, hgreater, hin])

/-- One round of looking for what comes after type arguments. -/
def afterRound : ScanRound Nat (Option (List Token))
  | _, [] => .inl none
  | depth, token :: ahead =>
    match token.kind with
    | .less => .inr (depth + 1, ahead)
    | .greater => if depth ≤ 1 then .inl (some ahead) else .inr (depth - 1, ahead)
    | .endOfFile | .openBrace | .equals => .inl none
    | _ => .inr (depth, ahead)

theorem afterTypeArguments_oneRound (depth : Nat) (ts : List Token) (h : Left source ts) :
    OneRound source afterRound afterTypeArguments depth ts := by
  cases ts with
  | nil => exact .answer rfl
  | cons token ahead =>
    by_cases hless : token.kind = .less
    · exact .next (depth + 1) h (by simp [hless]) (by simp [afterRound, hless]) (by simp [afterTypeArguments, hless])
    by_cases hgreater : token.kind = .greater
    · by_cases hdepth : depth ≤ 1
      · exact .answer (by simp [afterRound, afterTypeArguments, hgreater, hdepth])
      · exact .next (depth - 1) h (by simp [hgreater]) (by simp [afterRound, hgreater, hdepth])
          (by simp [afterTypeArguments, hgreater, hdepth])
    by_cases hstop : token.kind = .endOfFile ∨ token.kind = .openBrace ∨ token.kind = .equals
    · refine .answer ?_
      obtain hk | hk | hk := hstop
      all_goals simp [afterRound, afterTypeArguments, hk]
    · obtain ⟨hend, hbrace, hequals⟩ := by simpa only [not_or] using hstop
      exact .next depth h hend (by simp [afterRound]) (by simp [afterTypeArguments])

/-- One round of looking for the arrow of a lambda. -/
def arrowRound : ScanRound Nat Bool
  | _, [] => .inl false
  | depth, token :: ahead =>
    if token.kind = .arrow then .inl (depth = 0)
    else if token.kind = .openParen || token.kind = .less then .inr (depth + 1, ahead)
    else if token.kind = .closeParen || token.kind = .greater then
      if depth = 0 then .inl false else .inr (depth - 1, ahead)
    else if isInLambdaParameters token.kind then .inr (depth, ahead)
    else .inl false

theorem lambdaParametersAhead_oneRound (depth : Nat) (ts : List Token) (h : Left source ts) :
    OneRound source arrowRound lambdaParametersAhead depth ts := by
  cases ts with
  -- The end of the tokens, the arrow, an opener, a closer, and what may stand between.
  | nil => exact .answer rfl
  | cons token ahead =>
    by_cases harrow : token.kind = .arrow
    · exact .answer (by simp [arrowRound, lambdaParametersAhead, harrow])
    by_cases hopen : token.kind = .openParen ∨ token.kind = .less
    · refine .next (depth + 1) h (fun hend => ?_) (by simp [arrowRound, harrow, hopen])
        (by simp [lambdaParametersAhead, harrow, hopen])
      simp [hend] at hopen
    by_cases hclose : token.kind = .closeParen ∨ token.kind = .greater
    · by_cases hdepth : depth = 0
      · exact .answer (by simp [arrowRound, lambdaParametersAhead, harrow, hopen, hclose, hdepth])
      · refine .next (depth - 1) h (fun hend => ?_) (by simp [arrowRound, harrow, hopen, hclose, hdepth])
          (by simp [lambdaParametersAhead, harrow, hopen, hclose, hdepth])
        simp [hend] at hclose
    by_cases hin : isInLambdaParameters token.kind = true
    · refine .next depth h (fun hend => ?_) (by simp [arrowRound, harrow, hopen, hclose, hin])
        (by simp [lambdaParametersAhead, harrow, hopen, hclose, hin])
      rw [hend] at hin
      exact absurd hin (by decide)
    · exact .answer (by simp [arrowRound, lambdaParametersAhead, harrow, hopen, hclose, hin])

/-- One round of looking for the word of an accessor: past a modifier or an annotation of one name. -/
def accessorRound : ScanRound Unit Bool
  | _, [] => .inl false
  | _, token :: ahead =>
    if token.kind.isModifier || token.kind = .atSign then
      match ahead with
      | next :: after => if next.kind = .identifier then .inr ((), after) else .inr ((), next :: after)
      | [] => .inl false
    else .inl ((token.kind = .getKeyword || token.kind = .setKeyword) && followsAccessor ahead)

theorem isAccessorAhead_oneRound (x : Unit) (ts : List Token) (h : Left source ts) :
    OneRound source accessorRound (fun _ => isAccessorAhead) x ts := by
  cases ts with
  | nil => exact .answer (by simp [accessorRound, isAccessorAhead])
  | cons token ahead =>
    -- A modifier takes a name behind it along; each round takes a token at least.
    by_cases hmodifier : token.kind.isModifier = true ∨ token.kind = .atSign
    · have hend : token.kind ≠ .endOfFile := by
        intro hend
        rw [hend] at hmodifier
        exact absurd hmodifier (by decide)
      cases ahead with
      | nil => exact .answer (by simp [accessorRound, isAccessorAhead, hmodifier])
      | cons next after =>
        by_cases hname : next.kind = .identifier
        · have htail := left_tail h
          have hround : accessorRound x (token :: next :: after) = .inr ((), after) := by
            simp [accessorRound, hmodifier, hname]
          refine .goOn hround ?_ (left_tail htail) ?_ ?_
          · rw [isAccessorAhead.eq_def]
            simp [hmodifier, hname]
          · exact (startsLater_tail h hend).trans (startsLater_tail htail (by simp [hname]))
          · simp only [List.length_cons]
            omega
        · refine .next () h hend ?_ ?_
          · simp [accessorRound, hmodifier, hname]
          · rw [isAccessorAhead.eq_def]
            simp [hmodifier, hname]
    · refine .answer ?_
      rw [accessorRound.eq_def, isAccessorAhead.eq_def]
      simp [hmodifier]

theorem afterTypeArguments_suffix {depth : Nat} (h : afterTypeArguments depth ts = some us) : us <:+ ts := by
  induction ts generalizing depth with
  | nil => cases h
  | cons token ahead ih =>
    rw [afterTypeArguments] at h
    split at h
    · exact (ih h).trans (List.suffix_cons ..)
    · split at h
      · cases h
        exact List.suffix_cons ..
      · exact (ih h).trans (List.suffix_cons ..)
    iterate 3
      · cases h
    · exact (ih h).trans (List.suffix_cons ..)

theorem afterNameMarks_suffix (h : afterNameMarks ts = some us) : us <:+ ts := by
  obtain ⟨vs, hpast, rfl⟩ := Option.map_eq_some_iff.mp h
  have hvs : vs <:+ ts := by
    unfold pastTypeArguments at hpast
    split at hpast
    · cases hpast
      exact List.suffix_rfl
    · split at hpast
      · exact (afterTypeArguments_suffix hpast).trans (List.suffix_cons ..)
      · cases hpast
        exact List.suffix_rfl
  refine List.IsSuffix.trans ?_ hvs
  unfold pastQuestion
  split
  · exact List.suffix_rfl
  · split
    · exact List.suffix_cons ..
    · exact List.suffix_rfl

theorem left_suffix (h : Left source ts) (hsuffix : us <:+ ts) : Left source us := by
  induction ts with
  | nil => exact .inl (List.suffix_nil.mp hsuffix)
  | cons t ts ih =>
    obtain rfl | hsuffix := List.suffix_cons_iff.mp hsuffix
    · exact h
    · exact ih (left_tail h) hsuffix

/-- Tokens that are left after others start later. -/
theorem startsLater_suffix (h : Left source ts) (hsuffix : us <:+ ts) (hne : us ≠ []) :
    us = ts ∨ StartsLater ts us := by
  induction ts with
  | nil => exact .inl (List.suffix_nil.mp hsuffix)
  | cons t ts ih =>
    obtain rfl | hsuffix := List.suffix_cons_iff.mp hsuffix
    · exact .inl rfl
    -- Something comes after the first token, which is therefore not the end of the file.
    have hmore : ts ≠ [] := by
      rintro rfl
      exact hne (List.suffix_nil.mp hsuffix)
    have hahead : Ahead source (t :: ts) := h.resolve_left (List.cons_ne_nil _ _)
    have htail : StartsLater (t :: ts) ts := startsLater_tail h fun hend => hmore <|
      (Ahead.isEnd_iff (s := { file := source, current := t, ahead := ts }) hahead).mp (decide_eq_true hend)
    obtain rfl | hlater := ih (left_tail h) hsuffix
    · exact .inr htail
    · exact .inr (htail.trans hlater)

/-- A limit on the names that no tokens are left for is not felt. -/
theorem chainLength_limit {n : Nat} (hn : ts.length ≤ n) : chainLength n ts = chainLength ts.length ts := by
  -- The induction is on the tokens that are left; more than that many rounds are never needed.
  induction hlength : ts.length using Nat.strong_induction_on generalizing ts n with
  | h m ih =>
    subst hlength
    cases ts with
    | nil => cases n <;> rfl
    | cons token ahead =>
      obtain ⟨n, rfl⟩ : ∃ k, n = k + 1 := Nat.exists_eq_succ_of_ne_zero (Nat.ne_zero_of_lt hn)
      simp only [List.length_cons] at hn
      rw [List.length_cons, chainLength, chainLength]
      split
      · cases hmarks : afterNameMarks ahead with
        | none => rfl
        | some rest =>
          cases rest with
          | nil => rfl
          | cons next after =>
            have hlength := (afterNameMarks_suffix hmarks).length_le
            simp only [List.length_cons] at hlength
            have hlimit (k : Nat) (hk : after.length ≤ k) :
                chainLength k after = chainLength after.length after :=
              ih after.length (by simp only [List.length_cons]; omega) hk rfl
            simp only [hlimit n (by omega), hlimit ahead.length (by omega)]
      · rfl

/-- One round of counting the names of a receiver: a name with its marks, and the point after it. -/
def receiverRound : ScanRound Nat Nat
  | names, [] => .inl (names - 1)
  | names, token :: ahead =>
    if token.kind.isName then
      match afterNameMarks ahead with
      | none => .inl 0
      | some (next :: after) =>
        if next.kind = .dot || next.kind = .questionDot then .inr (names + 1, after) else .inl names
      | some [] => .inl names
    else .inl (names - 1)

/-- The names of a receiver, after so many that have been counted. -/
def receiverFrom (names : Nat) (ts : List Token) : Nat :=
  (chainLength ts.length ts).elim 0 fun more => names + more - 1

theorem receiverFrom_zero (ts : List Token) : receiverFrom 0 ts = receiverLength ts := by
  unfold receiverFrom receiverLength
  cases chainLength ts.length ts with
  | none => rfl
  | some n => simp

theorem receiverFrom_oneRound (names : Nat) (ts : List Token) (h : Left source ts) :
    OneRound source receiverRound receiverFrom names ts := by
  cases ts with
  | nil => exact .answer rfl
  | cons token ahead =>
    by_cases hname : token.kind.isName = true
    · have hend : token.kind ≠ .endOfFile := by
        intro hend
        rw [hend] at hname
        cases hname
      cases hmarks : afterNameMarks ahead with
      | none => exact .answer (by simp [receiverRound, receiverFrom, chainLength, hname, hmarks])
      | some rest =>
        cases rest with
        | nil => exact .answer (by simp [receiverRound, receiverFrom, chainLength, hname, hmarks])
        | cons next after =>
          by_cases hpoint : next.kind = .dot ∨ next.kind = .questionDot
          · have hsuffix := afterNameMarks_suffix hmarks
            have hlength := hsuffix.length_le
            simp only [List.length_cons] at hlength
            have hnext : Left source (next :: after) := left_suffix (left_tail h) hsuffix
            have hpoint' : StartsLater (next :: after) after := by
              refine startsLater_tail hnext fun hend => ?_
              simp [hend] at hpoint
            have hround : receiverRound names (token :: ahead) = .inr (names + 1, after) := by
              simp [receiverRound, hname, hmarks, hpoint]
            refine .goOn hround ?_ (left_tail hnext) ?_ ?_
            · unfold receiverFrom
              rw [List.length_cons, chainLength]
              simp only [hname, hmarks, hpoint, if_true, Bool.or_eq_true, decide_eq_true_eq]
              rw [chainLength_limit (n := ahead.length) (by omega)]
              cases chainLength after.length after with
              | none => rfl
              | some more =>
                simp only [Option.map_some, Option.elim_some]
                omega
            · -- The marks of the name are between it and the point.
              refine (startsLater_tail h hend).trans ?_
              obtain hsame | hlater := startsLater_suffix (left_tail h) hsuffix (List.cons_ne_nil _ _)
              · rw [← hsame]
                exact hpoint'
              · exact hlater.trans hpoint'
            · simp only [List.length_cons]
              omega
          · exact .answer (by simp [receiverRound, receiverFrom, chainLength, hname, hmarks, hpoint])
    · exact .answer (by simp [receiverRound, receiverFrom, chainLength, hname])

/-- Every scan of the grammar goes on only to a token that starts later. -/
theorem scans_of_left (h : Left source ts) :
    (∀ depth, Scans closeRound depth ts (typeArgumentsClose depth ts)) ∧
    (∀ depth, Scans afterRound depth ts (afterTypeArguments depth ts)) ∧
    (∀ depth, Scans arrowRound depth ts (lambdaParametersAhead depth ts)) ∧
    Scans accessorRound () ts (isAccessorAhead ts) ∧ Scans receiverRound 0 ts (receiverLength ts) := by
  refine ⟨fun depth => ?_, fun depth => ?_, fun depth => ?_, ?_, ?_⟩
  · exact scans_of_oneRound typeArgumentsClose_oneRound depth h
  · exact scans_of_oneRound afterTypeArguments_oneRound depth h
  · exact scans_of_oneRound lambdaParametersAhead_oneRound depth h
  · exact scans_of_oneRound isAccessorAhead_oneRound () h
  · rw [← receiverFrom_zero]
    exact scans_of_oneRound receiverFrom_oneRound 0 h

end

end KotlinTree.Grammar
