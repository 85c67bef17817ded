import KotlinTree.Proofs.Grammar.Forward

/-!
The repetitions of the grammar. Main statement: every round of a repetition either is the last one or comes
to a token that starts later, so that a repetition ends by itself and never for the bound on its rounds
(`rounds_of_runs`).
-/

namespace KotlinTree.Grammar

section
variable {source : String} {rec : Productions}

theorem unknownStep_comesOn : ComesOn source unknownStep := by
  intro place n x
  refine .know fun s => .branch (fun _ => step_stops) fun hend => ?_
  have hamid (t : State) (ht : State.Since source place (n + 1) t ∧ t = s) :
      Amid (State.Since source place (n + 1)) t := ⟨ht.1, fun hk => hend (ht.2 ▸ decide_eq_true hk)⟩
  refine .of_imp (.ite step_stops (.ite ?_ ?_)) hamid
  · exact since_bump.bind fun token => step_stops
  · exact since_bump.bind fun token => step_goes

theorem nameChainStep_comesOn (limit : Option Nat) (allowStar : Bool) (start : Nat) :
    ComesOn source (nameChainStep limit allowStar start) := by
  intro place n x
  have h := (since_stays source (place + 1) n).persists
  refine .seeAt (by decide) fun atDot => .seenWith ?_ step_stops
  refine .look fun next => .ite ?_ (.ite ?_ step_stops)
  · refine since_bump.bind fun dot => h.bumpName.bind fun name => ?_
    exact (h.node _ _ _ _ rfl).bind fun access => step_goes
  · exact since_bump.bind fun dot => (since_stays source (place + 1) n).bump.bind fun asterisk => step_stops

theorem nullabilityStep_comesOn : ComesOn source nullabilityStep := by
  intro place n x
  refine .seeAt (by decide) fun atQuestion => .look fun startsLine => .seenWith ?_ step_stops
  exact since_bump.bind fun question => step_goes

theorem functionTypeStep_comesOn (hr : rec.Sound) : ComesOn source (functionTypeStep rec) := by
  intro place n cs
  have h := carries_since hr source place n
  refine .lookKind fun k => ?_
  split
  iterate 2
    · exact step_stops
  · exact .facing (by decide) (since_bump.bind fun comma => step_goes)
  · refine .facing ‹_› (.look fun next => ?_)
    extract_lets afterName
    have hafter (cs : Array NodeId) :
        Leads (State.Going source place n) (afterName cs) (Step.Since source place n) :=
      going_type hr (fun _ => step_goes) (h.unknownToken.forget.bind fun token => step_goes)
    refine .of_imp (.ite ?_ (hafter cs)) fun _ hs => .inr hs
    exact going_bumpName.bind fun name => going_bump.bind fun colon => (hafter _).of_imp fun _ hs => .inl hs

theorem typeArgumentStep_comesOn (hr : rec.Sound) : ComesOn source (typeArgumentStep rec) := by
  intro place n x
  have h := carries_since hr source place n
  refine .lookKind fun k => ?_
  split
  iterate 2
    · exact step_stops
  iterate 2
    · exact .facing (by decide) (since_bump.bind fun token => step_goes)
  · refine .facing ‹_› (.look fun atOut => .look fun next => ?_)
    extract_lets afterVariance
    have hafter (cs : Array NodeId) :
        Leads (State.Going source place n) (afterVariance cs) (Step.Since source place n) :=
      going_type hr (fun _ => step_goes) (h.unknownToken.forget.bind fun token => step_goes)
    refine .of_imp (.ite ?_ (hafter _)) fun _ hs => .inr hs
    exact going_bump.bind fun word => (hafter _).of_imp fun _ hs => .inl hs

theorem modifierStep_comesOn (hr : rec.Sound) : ComesOn source (modifierStep rec) := by
  intro place n x
  have h := carries_since hr source place n
  refine .ifAt (by decide) ?_ (.seeModifier fun atModifier => .seen id ?_ step_stops)
  · exact (h.annotationUse.of_imp fun _ hs => .inr hs).bind fun annotation => step_goes
  · exact .look fun s => since_bump.bind fun word => step_goes

theorem valueArgumentStep_comesOn (hr : rec.Sound) : ComesOn source (valueArgumentStep rec) := by
  intro place n x
  refine .lookKind fun k => ?_
  split
  iterate 2
    · exact step_stops
  · exact .facing (by decide) (since_bump.bind fun comma => step_goes)
  iterate 2
    · exact .facing (by decide) ((since_makes unknownToken_makes).bind fun token => step_goes)
  · refine .facing ‹_› (since_yields (valueArgument_yields hr) (fun argument => step_goes) ?_)
    exact (since_makes unknownToken_makes).bind fun token => step_goes

theorem varianceStep_comesOn : ComesOn source varianceStep := by
  intro place n cs
  have h := (since_stays source place (n + 1)).persists
  refine .look fun atIn => .look fun atOut => .look fun atReified => .lookNext fun next => ?_
  refine .branch (fun hword => h.toward ?_ ?_) fun _ => step_stops
  · rintro rfl
    simp at hword
  · exact since_bump.bind fun word => step_goes

theorem parameterStep_comesOn (hr : rec.Sound) : ComesOn source (parameterStep rec) := by
  intro place n x
  refine .lookKind fun k => ?_
  split
  iterate 3
    · exact step_stops
  · exact .facing (by decide) (since_bump.bind fun comma => step_goes)
  · refine .facing ‹_› (since_yields (parameter_yields hr) (fun parameter => step_goes) ?_)
    exact (since_makes unknownToken_makes).bind fun token => step_goes

theorem typeParameterStep_comesOn (hr : rec.Sound) : ComesOn source (typeParameterStep rec) := by
  intro place n cs
  refine .lookKind fun k => ?_
  split
  iterate 2
    · exact step_stops
  · exact .facing (by decide) (since_bump.bind fun comma => step_goes)
  · refine .facing ‹_› (since_yields (typeParameter_yields hr) (fun parameter => step_goes) ?_)
    exact (since_makes unknownToken_makes).bind fun token => step_goes

theorem statementStep_comesOn (hr : rec.Sound) : ComesOn source (statementStep rec) := by
  intro place n x
  refine .lookKind fun k => ?_
  split
  iterate 2
    · exact step_stops
  · exact .facing (by decide) (since_bump.bind fun semicolon => step_goes)
  · refine .facing ‹_› (since_yields hr.statement (fun statement => ?_) ?_)
    · exact .bind (.pure _) fun statement => step_goes
    · exact (since_makes unknown_makes).bind fun statement => step_goes

theorem lambdaParameterStep_comesOn (hr : rec.Sound) : ComesOn source (lambdaParameterStep rec) := by
  intro place n x
  refine .lookKind fun k => ?_
  split
  iterate 2
    · exact step_stops
  · exact .facing (by decide) (since_bump.bind fun comma => step_goes)
  · refine .facing ‹_› (since_yields (parameter_yields hr) (fun parameter => step_goes) ?_)
    exact (since_makes unknown_makes).bind fun kept => step_goes

theorem memberStep_comesOn (hr : rec.Sound) : ComesOn source (memberStep rec) := by
  intro place n x
  refine .lookKind fun k => ?_
  split
  iterate 2
    · exact step_stops
  · exact .facing (by decide) (since_bump.bind fun semicolon => step_goes)
  · refine .facing ‹_› (since_yields hr.declaration (fun member => ?_) ?_)
    · exact .bind (.pure _) fun member => step_goes
    · exact (since_makes unknown_makes).bind fun member => step_goes

/-- Supertypes go on with a comma only. -/
theorem supertypeStep_comesOn (hr : rec.Sound) : ComesOn source (supertypeStep rec) := by
  intro place n x
  have hstays := since_stays source place (n + 1)
  have h := hstays.carries hr hstays.bump fun _ hs => hs.1
  refine h.supertypeEntry.bind fun entry => ?_
  cases entry with
  | none => exact step_stops
  | some entry => exact since_eat (by decide) (fun comma => step_goes) step_stops

/-- Constraints go on with a comma only. -/
theorem constraintStep_comesOn (hr : rec.Sound) : ComesOn source (constraintStep rec) := by
  intro place n cs
  have hstays := since_stays source place (n + 1)
  have h := hstays.carries hr hstays.bump fun _ hs => hs.1
  refine h.bumpName.bind fun name => (h.writtenType _).bind fun typed => .ite step_stops ?_
  exact since_eat (by decide) (fun comma => step_goes) step_stops

/-- An accessor that is seen ahead begins with a token of its own. -/
theorem accessorStep_comesOn (hr : rec.Sound) : ComesOn source (accessorStep rec) := by
  intro place n cs
  refine .know fun s => .branch (fun hahead => ?_) fun _ => step_stops
  have hamid (t : State) (ht : State.Since source place (n + 1) t ∧ t = s) :
      Amid (State.Since source place (n + 1)) t := by
    refine ⟨ht.1, fun hend => ?_⟩
    rw [← ht.2, State.tokens] at hahead
    unfold isAccessorAhead at hahead
    simp [hend, TokenKind.isModifier] at hahead
  exact ((since_makes (accessor_makes hr)).of_imp hamid).bind fun accessor => step_goes

theorem fileStep_comesOn (hr : rec.Sound) : ComesOn source (fileStep rec) := by
  intro place n parts
  refine .lookKind fun k => ?_
  split
  · exact step_stops
  · exact .facing (by decide) (since_bump.bind fun semicolon => step_goes)
  · exact .facing (by decide) ((since_makes importDirective_makes).bind fun directive => step_goes)
  · refine .facing ‹_› (since_yields hr.declaration (fun declaration => ?_) ?_)
    · exact .bind (.pure _) fun declaration => step_goes
    · exact (since_makes unknown_makes).bind fun declaration => step_goes

theorem indexStep_comesOn (hr : rec.Sound) : ComesOn source (indexStep rec) := by
  intro place n cs
  refine .lookKind fun k => ?_
  split
  iterate 2
    · exact step_stops
  · exact .facing (by decide) (since_bump.bind fun comma => step_goes)
  · refine .facing ‹_› (since_yields hr.expression (fun index => step_goes) ?_)
    exact (since_makes unknownToken_makes).bind fun token => step_goes

/-- A lambda that may be passed to a call here is. -/
theorem trailingLambda_since (hr : rec.Sound) {place n : Nat} :
    Leads (fun s => Facing (State.Since source place (n + 1)) .openBrace s ∧
        s.current.startsLine = false ∧ s.noTrailingLambda = false)
      (trailingLambda rec) fun _ => State.Since source (place + 1) n := by
  have h := carries_since hr source place n
  refine .know fun atBrace => .know fun starts => .know fun t => .branch (fun _ => ?_) fun hnot => ?_
  · refine (h.lambda.forget.of_imp fun s hs => .inr ?_).bind fun lambda => .pure _
    obtain ⟨⟨⟨⟨⟨hs, hbrace⟩, -⟩, -⟩, -⟩, -⟩ := hs
    refine ⟨hs, ?_⟩
    rw [hbrace]
    decide
  · rintro s o s' ⟨⟨⟨⟨⟨-, hbrace⟩, hline, hopen⟩, rfl⟩, rfl⟩, rfl⟩
    refine absurd ?_ hnot
    have hat : (Id.run ((isAt .openBrace).run s)).1 = true := decide_eq_true hbrace
    have hsame : (Id.run (startsLine.run s)).1 = false := hline
    have hfree : (Id.run ((get : Parser State).run s)).1.noTrailingLambda = false := hopen
    rw [hat, hsame, hfree]
    rfl

/-- A call takes its arguments, or the lambda that is seen. -/
theorem call_since (hr : rec.Sound) {place n : Nat} (start : Nat) (callee : NodeId) (list : Option NodeId)
    (typeArguments : Array NodeId) :
    Leads (fun s => State.Since source place (n + 1) s ∧ (s.current.kind = .openParen ∨
        s.current.kind = .openBrace ∧ s.current.startsLine = false ∧ s.noTrailingLambda = false))
      (call rec start callee list typeArguments) fun _ => State.Since source (place + 1) n := by
  have h := carries_since hr source place n
  refine .know fun atParen => ?_
  extract_lets afterArguments
  have hafter (x : Option NodeId × Array NodeId) {P : State → Prop}
      (hlast : Leads P (trailingLambda rec) fun _ => State.Since source (place + 1) n) :
      Leads P (afterArguments x) fun _ => State.Since source (place + 1) n :=
    hlast.bind fun last => h.node _ _ _ _ rfl
  -- An argument list or a lambda follows, and either begins with a token that is seen.
  refine .branch (fun hparen => ?_) fun hother => ?_
  · subst hparen
    refine (h.valueArgumentList.of_imp fun s hs => .inr ⟨hs.1.1, ?_⟩).bind fun listed =>
      .bind (.pure _) fun x => hafter x h.trailingLambda
    have hat : s.current.kind = .openParen := of_decide_eq_true hs.2
    rw [hat]
    decide
  · refine .bind (.pure _) fun x => (hafter x (trailingLambda_since hr)).of_imp ?_
    rintro s ⟨⟨hs, hopen⟩, rfl⟩
    obtain ⟨hbrace, hfree⟩ := hopen.resolve_left fun hparen => hother (decide_eq_true hparen)
    exact ⟨⟨hs, hbrace⟩, hfree⟩

theorem postfixStep_comesOn (hr : rec.Sound) (start : Nat) : ComesOn source (postfixStep rec start) := by
  intro place n left
  have h := carries_since hr source place n
  -- What is to be taken has been looked at, so that the file has not ended.
  have hmore {P : State → Prop} {p : Parser NodeId} {k : TokenKind} (hk : k ≠ .endOfFile)
      (hP : ∀ s, P s → State.Since source place (n + 1) s)
      (hp : Leads (State.Going source place n) p (Operand (State.Since source (place + 1) n))) :
      Leads (Facing P k) (Step.more <$> p) (Step.Since source place n) := by
    refine step_goes_map (hp.forget.of_imp fun s hs => .inr ⟨hP s hs.1, ?_⟩)
    rw [hs.2]
    exact hk
  refine .know fun starts => .lookKind fun k => ?_
  split
  iterate 2
    · exact hmore (by decide) (fun _ hs => hs.1) (h.memberAccess h.first _ _)
  · refine .ite (step_goes_map ((call_since hr _ _ _ _).of_imp fun s hs => ?_)) step_stops
    exact ⟨hs.1.1, .inl hs.2⟩
  · exact .look fun s => .ite (hmore (by decide) (fun _ hs => hs.1) (h.typeArgumentsThenCall _ _)) step_stops
  · refine .know fun t => .look fun u => .branch (fun hlambda => ?_) fun _ => step_stops
    refine step_goes_map ((call_since hr _ _ _ _).of_imp ?_)
    rintro s ⟨⟨⟨hs, rfl⟩, hbrace⟩, rfl⟩
    simp only [Bool.and_eq_true, Bool.not_eq_true'] at hlambda
    exact ⟨hs, .inr ⟨hbrace, hlambda.1⟩⟩
  · exact .ite (hmore (by decide) (fun _ hs => hs.1) (h.indexing _ _)) step_stops
  iterate 3
    · exact .ite (hmore (by decide) (fun _ hs => hs.1) (h.postfixOperator h.first _ _)) step_stops
  · exact hmore (by decide) (fun _ hs => hs.1) (h.callableReference h.first _ _)
  · exact step_stops

theorem castStep_comesOn (hr : rec.Sound) (start : Nat) : ComesOn source (castStep rec start) := by
  intro place n left
  have h := carries_since hr source place n
  refine .lookKind fun operator => .look fun startsLine => ?_
  refine .branch (fun hcast => .facing ?_ ?_) fun _ => step_stops
  · rintro rfl
    simp at hcast
  · refine since_bump.bind fun token => (h.recur (.typeReference none)).bind fun type => ?_
    exact step_goes_map (h.node _ _ _ _ rfl)

theorem binaryStep_comesOn (hr : rec.Sound) (m start : Nat) : ComesOn source (binaryStep rec m start) := by
  intro place n left
  have hstays := since_stays source (place + 1) n
  refine .lookKind fun operator => ?_
  split
  · exact step_stops
  · rename_i precedence hprecedence
    have hk : operator ≠ .endOfFile := by
      rintro rfl
      cases hprecedence
    refine .look fun startsLine => .facing hk (.ite step_stops (.ite ?_ ?_))
    · refine since_bump.bind fun token => (hstays.recur hr (.typeReference none)).bind fun type => ?_
      exact step_goes_map (hstays.node _ _ _ _)
    · refine since_bump.bind fun token => (hstays.recur hr (.binary _)).bind fun right => ?_
      exact step_goes_map (hstays.node _ _ _ _)

end

/-- The steps that the grammar repeats. -/
inductive Repetition (rec : Productions) : {σ : Type} → (σ → Parser (Step σ)) → Prop
  | keptSource : Repetition rec unknownStep
  | names (limit : Option Nat) (allowStar : Bool) (start : Nat) :
      Repetition rec (nameChainStep limit allowStar start)
  | nullability : Repetition rec nullabilityStep
  | functionTypeParameters : Repetition rec (functionTypeStep rec)
  | typeArguments : Repetition rec (typeArgumentStep rec)
  | modifiers : Repetition rec (modifierStep rec)
  | valueArguments : Repetition rec (valueArgumentStep rec)
  | variance : Repetition rec varianceStep
  | parameters : Repetition rec (parameterStep rec)
  | typeParameters : Repetition rec (typeParameterStep rec)
  | statements : Repetition rec (statementStep rec)
  | lambdaParameters : Repetition rec (lambdaParameterStep rec)
  | members : Repetition rec (memberStep rec)
  | supertypes : Repetition rec (supertypeStep rec)
  | constraints : Repetition rec (constraintStep rec)
  | accessors : Repetition rec (accessorStep rec)
  | declarations : Repetition rec (fileStep rec)
  | indices : Repetition rec (indexStep rec)
  | postfixOperators (start : Nat) : Repetition rec (postfixStep rec start)
  | casts (start : Nat) : Repetition rec (castStep rec start)
  | binaryOperators (m start : Nat) : Repetition rec (binaryStep rec m start)

theorem Repetition.comesOn {source : String} {rec : Productions} {σ : Type} {step : σ → Parser (Step σ)}
    (h : Repetition rec step) (hr : rec.Sound) : ComesOn source step := by
  cases h with
  | keptSource => exact unknownStep_comesOn
  | names limit allowStar start => exact nameChainStep_comesOn limit allowStar start
  | nullability => exact nullabilityStep_comesOn
  | functionTypeParameters => exact functionTypeStep_comesOn hr
  | typeArguments => exact typeArgumentStep_comesOn hr
  | modifiers => exact modifierStep_comesOn hr
  | valueArguments => exact valueArgumentStep_comesOn hr
  | variance => exact varianceStep_comesOn
  | parameters => exact parameterStep_comesOn hr
  | typeParameters => exact typeParameterStep_comesOn hr
  | statements => exact statementStep_comesOn hr
  | lambdaParameters => exact lambdaParameterStep_comesOn hr
  | members => exact memberStep_comesOn hr
  | supertypes => exact supertypeStep_comesOn hr
  | constraints => exact constraintStep_comesOn hr
  | accessors => exact accessorStep_comesOn hr
  | declarations => exact fileStep_comesOn hr
  | indices => exact indexStep_comesOn hr
  | postfixOperators start => exact postfixStep_comesOn hr start
  | casts start => exact castStep_comesOn hr start
  | binaryOperators m start => exact binaryStep_comesOn hr m start

/-- Rounds of a step up to the one that is done. Each of those before it comes to a token that starts later. -/
inductive Rounds {σ : Type} (step : σ → Parser (Step σ)) : State → σ → State → σ → Prop
  | last {s s' : State} {x y : σ} (h : Runs (step x) s (.done y) s') : Rounds step s x s' y
  | next {s t s' : State} {x y z : σ} (h : Runs (step x) s (.more z) t)
      (later : s.current.place < t.current.place) (rest : Rounds step t z s' y) : Rounds step s x s' y

/-- A repetition goes on until a step is done, since there are no more rounds than tokens. -/
theorem ComesOn.rounds {source : String} {σ : Type} {step : σ → Parser (Step σ)} {s s' : State} {x y : σ}
    (h : ComesOn source step) (hs : Ahead source s.tokens) (hrun : Runs (repeating step x) s y s') :
    Rounds step s x s' y := by
  have hrounds (n : Nat) (s : State) (x : σ) (hs : Ahead source s.tokens) (hn : s.ahead.length < n)
      (hrun : Runs (repeatUpTo step n x) s y s') : Rounds step s x s' y := by
    induction n generalizing s x with
    | zero => exact absurd hn (Nat.not_lt_zero _)
    | succ n ih =>
      obtain ⟨r, t, hstep, hrest⟩ := runs_bind.mp hrun
      have hr := h s.current.place s.ahead.length x (since_self hs) hstep
      cases r with
      | done z =>
        obtain ⟨rfl, rfl⟩ := runs_pure.mp hrest
        exact .last hstep
      | more z =>
        have ht : t.Since source (s.current.place + 1) s.ahead.length := hr
        refine .next hstep ht.later (ih t z ht.ahead ?_ hrest)
        exact ht.fewer.trans_le (Nat.le_of_lt_succ hn)
  exact hrounds _ s x hs (by omega) (runs_bind_get.mp hrun)

/-- However deep productions are nested, each round of their repetitions but the last comes to a token that
starts later. -/
theorem rounds_of_runs {source : String} (depth : Nat) {σ : Type} {step : σ → Parser (Step σ)}
    {s s' : State} {x y : σ} (h : Repetition (productions depth) step) (hs : Ahead source s.tokens)
    (hrun : Runs (repeating step x) s y s') : Rounds step s x s' y :=
  (h.comesOn (productions_sound depth)).rounds hs hrun

end KotlinTree.Grammar
