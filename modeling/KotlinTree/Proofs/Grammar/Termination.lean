import KotlinTree.Proofs.Grammar.LeafCount
import KotlinTree.Proofs.Grammar.Parallel
import KotlinTree.Proofs.Grammar.Rounds
import KotlinTree.Proofs.Grammar.Scans

/-!
Why a parse comes to its end. Productions that are nested deeper than the tokens of a source ask for run like
those that are nested just so deep, so that the bound on nesting is never felt (`sourceFile_nesting`). With
the repetitions and the scans, which come to a later token in each round but the last, all that a parse does
is bounded by the tokens of its source (`parse_progresses`).
-/

namespace KotlinTree.Grammar

set_option synthInstance.maxSize 1000

section
variable {source : String} {I : State → Prop} {rec rec' : Productions}

/-- A property of the tokens ahead lasts through all that is put together from productions that keep it. -/
theorem Stays.parallel (h : Stays source I) (hrec : ∀ nt, Keeps I (rec nt)) {α : Type} {p q : Parser α}
    (hp : Parallel rec rec' p q) : Keeps I p := by
  induction hp with
  | recur nt => exact hrec nt
  | look hlooks => exact fun _ _ _ hs hr => (hlooks.eq_of_runs hr).symm ▸ hs
  | bind _ _ ih ih' => exact ih.bind ih'
  | bumpAs k => exact h.leaf k
  | node k start cs data => exact h.node k start cs data
  | change id f =>
    intro s _ s' hs hr
    obtain rfl := runs_change.mp hr
    exact h.tokens s _ rfl hs
  | report ds => exact .modify fun s hs => h.tokens s _ rfl hs
  | nested _ ih =>
    have hunknown : Keeps I unknown := h.persists.unknown.forget
    exact .nested hunknown ih (fun s _ hs => h.tokens s _ rfl hs) fun _ s _ hs => h.tokens s _ rfl hs
  | withTrailingLambda allowed _ ih => exact h.persists.withTrailingLambda ih allowed

theorem Stays.alike (h : Stays source I) (hr : rec.Sound) (hsame : ∀ nt, SameFrom I (rec nt) (rec' nt)) :
    rec.Alike I rec' where
  same := hsame
  kept := h.parallel (h.recur hr)
  depth s _ hs _ := h.tokens s _ rfl hs
  braces s _ hs := h.tokens s _ rfl hs

end

/-- The tokens cut the rest of a source, and fewer than so many come after the current one. -/
abbrev State.Few (source : String) (n : Nat) : State → Prop := State.Since source 0 n

section
variable {source : String} {n : Nat} {rec rec' : Productions} {β : Type} {f g : NodeId → Parser β}

theorem few_of_since {α : Type} {P : State → Prop} {p : Parser α}
    (h : Leads P p fun _ => State.Since source 1 n) : Leads P p fun _ => State.Few source n :=
  h.mono fun _ _ hs => ⟨hs.ahead, Nat.zero_le _, hs.fewer⟩

theorem few_bump : Leads (Amid (State.Few source (n + 1))) bump fun _ => State.Few source n :=
  few_of_since since_bump

/-- All productions keep the tokens few. -/
theorem few_carries (hr : rec.Sound) (source : String) (n : Nat) :
    Carries rec (Amid (State.Few source n)) (State.Few source n) (State.Few source n) :=
  (since_stays source 0 n).carries hr (since_stays source 0 n).bump.amid fun _ hs => hs

/-- After the first token fewer are left. -/
theorem SameFrom.first (rec rec' : Productions) [rec.Alike (State.Few source n) rec']
    [h : ∀ token, Parallel rec rec' (f token) (g token)] :
    SameFrom (Amid (State.Few source (n + 1))) (bump >>= f) (bump >>= g) :=
  .bind (.refl _) few_bump fun _ => .of_parallel rec rec'

theorem SameFrom.facing {α : Type} {P : State → Prop} {p q : Parser α} {k : TokenKind}
    (hk : k ≠ .endOfFile) (h : SameFrom (Amid P) p q) : SameFrom (Facing P k) p q :=
  h.of_imp fun _ hs => ⟨hs.1, hs.2 ▸ hk⟩

/-- A condition that is seen only before the end of the file. -/
theorem SameFrom.ifAt {α : Type} {P : State → Prop} {p q p' q' : Parser α} {k : TokenKind}
    (hk : k ≠ .endOfFile) (hp : SameFrom (Amid P) p p') (hq : SameFrom P q q') :
    SameFrom P (isAt k >>= fun b => if b = true then p else q)
      (isAt k >>= fun b => if b = true then p' else q') := by
  refine .know fun b => .branch (fun hb => hp.of_imp fun s hs => ⟨hs.1, ?_⟩) fun _ => hq.of_imp fun _ hs => hs.1
  have hat : s.current.kind = k := of_decide_eq_true (hs.2.trans hb)
  exact hat ▸ hk

variable [rec.Alike (State.Few source n) rec']

theorem annotationUse_same :
    SameFrom (Amid (State.Few source (n + 1))) (annotationUse rec) (annotationUse rec') :=
  .look fun _ => .first rec rec'

theorem modifiers_same (hr : rec.Sound) (cs : Array NodeId) :
    SameFrom (State.Few source (n + 1)) (modifiers rec cs) (modifiers rec' cs) := by
  refine .look fun start => (SameFrom.repeating ?_ (fun x => ?_) _).onward _
  · exact (few_carries hr source (n + 1)).modifierStep
  · exact .ifAt (by decide) (annotationUse_same.onward _) (.refl _)

theorem objectDeclaration_same (start : Nat) (cs : Array NodeId) (found : List Modifier) :
    SameFrom (Amid (State.Few source (n + 1))) (objectDeclaration rec start cs found)
      (objectDeclaration rec' start cs found) :=
  .first rec rec'

/-- What comes after the modifiers of a declaration begins with a token that is seen. -/
theorem declaration_same (hr : rec.Sound) :
    SameFrom (State.Few source (n + 1)) (declaration rec) (declaration rec') := by
  have hkept := (few_carries hr source (n + 1)).modifiers #[]
  refine .look fun start => .bind (modifiers_same hr #[]) hkept fun found => .lookKind fun k => ?_
  split
  iterate 2
    · exact .facing (by decide) (.map (.look fun _ => .first rec rec'))
  · exact .facing (by decide) (.map (objectDeclaration_same _ _ _))
  · exact .facing (by decide) (.map (.first rec rec'))
  iterate 2
    · exact .facing (by decide) (.map (.look fun _ => .first rec rec'))
  · exact .facing (by decide) (.map (.first rec rec'))
  · refine .look fun next => .branch (fun hinit => .facing ?_ ?_) fun _ => .refl _
    · rintro rfl
      simp at hinit
    · exact .map (.first rec rec')

theorem functionTypeRest_same (cs : Array NodeId) :
    SameFrom (Amid (State.Few source (n + 1))) (functionTypeRest rec cs) (functionTypeRest rec' cs) :=
  .first rec rec'

/-- A name that is there is taken. -/
theorem few_nameChain (limit : Option Nat) :
    Leads (fun s => State.Few source (n + 1) s ∧ s.current.kind.isName = true) (nameChain limit false)
      fun _ => State.Few source n := by
  rintro s ⟨o, star⟩ s' ⟨hs, hname⟩ h
  have hk : s.current.kind ≠ .endOfFile := by
    intro hk
    rw [hk] at hname
    cases hname
  obtain ⟨name, rfl⟩ := Option.isSome_iff_exists.mp (nameChain_isSome hname h)
  have hlater := (nameChain_yields h).makes.since ⟨hs, hk⟩
  exact ⟨hlater.ahead, Nat.zero_le _, hlater.fewer⟩

theorem namedType_same (limit : Option Nat) (start : Nat) (cs : Array NodeId) :
    SameFrom (fun s => State.Few source (n + 1) s ∧ s.current.kind.isName = true)
      (namedType rec limit start cs) (namedType rec' limit start cs) :=
  .bind (.refl _) (few_nameChain limit) fun _ => .of_parallel rec rec'

theorem typeAfterAnnotations_same (limit : Option Nat) (start : Nat) (cs : Array NodeId) :
    SameFrom (State.Few source (n + 1)) (typeAfterAnnotations rec limit start cs)
      (typeAfterAnnotations rec' limit start cs) := by
  refine .look fun atSuspend => .know fun next => ?_
  extract_lets afterSuspend afterSuspend'
  have hafter (cs : Array NodeId) :
      SameFrom (State.Few source (n + 1)) (afterSuspend cs) (afterSuspend' cs) := by
    refine .ifAt (by decide) ((functionTypeRest_same cs).onward _) (.know fun atName => ?_)
    refine .branch (fun hname => (namedType_same _ _ _).of_imp fun s hs => ⟨hs.1, ?_⟩) fun _ => .refl _
    exact hs.2.trans hname
  refine .branch (fun hsuspend => .of_imp (.first rec rec') fun s hs => ⟨hs.1, ?_⟩)
    fun _ => (hafter cs).of_imp fun _ hs => hs.1
  -- A parenthesis comes next, so that the file has not ended.
  refine (since_stays source 0 (n + 1)).persists.next s hs.1 ?_
  rintro hend
  obtain ⟨-, rfl⟩ : _ ∧ next = .openParen := by simpa using hsuspend
  exact absurd (hs.2.symm.trans hend) (by decide)

/-- A type begins with annotations, a parenthesis or a name. -/
theorem typeReference_same (hr : rec.Sound) (limit : Option Nat) :
    SameFrom (State.Few source (n + 1)) (typeReference rec limit) (typeReference rec' limit) := by
  have hkept := (few_carries hr source (n + 1)).modifiers #[]
  have hstays := since_stays source 0 (n + 1)
  refine .look fun start => .nested (Q := State.Few source (n + 1)) ?_ fun s _ hs _ _ => hstays.tokens s _ rfl hs
  refine .look fun atSign => .ite ?_ ?_
  · exact .bind (modifiers_same hr #[]) hkept fun found => typeAfterAnnotations_same _ _ _
  · exact .bind (.refl _) (.pure _) fun cs => typeAfterAnnotations_same _ _ _

theorem lambda_same :
    SameFrom (Amid (State.Few source (n + 1))) (lambda rec) (lambda rec') :=
  .look fun _ => .first rec rec'

/-- An expression without operators begins with a token, or is a declaration. -/
theorem primary_same
    (hdeclaration : SameFrom (State.Few source (n + 1)) (rec .declaration) (rec' .declaration)) :
    SameFrom (State.Few source (n + 1)) (primary rec) (primary rec') := by
  refine .look fun start => .lookKind fun k => ?_
  split
  iterate 8
    · exact .refl _
  · exact .facing (by decide) (.map (.look fun _ => .first rec rec'))
  · exact .facing (by decide) (.map (.look fun _ => .first rec rec'))
  · exact .facing (by decide) (.map lambda_same)
  · exact .facing (by decide) (.map (.look fun _ => .first rec rec'))
  · exact .facing (by decide) (.map (.look fun _ => .first rec rec'))
  iterate 3
    · exact .facing (by decide) (.map (.look fun _ => .look fun _ => .first rec rec'))
  · exact .refl _
  · exact .facing (by decide) (.map (objectDeclaration_same _ _ _))
  · exact hdeclaration.of_imp fun _ hs => hs.1
  iterate 14
    · exact .refl _

theorem trailingLambda_same :
    SameFrom (State.Few source (n + 1)) (trailingLambda rec) (trailingLambda rec') := by
  refine .know fun atBrace => .look fun startsLine => .look fun s => .branch (fun hlambda => ?_) fun _ => .refl _
  refine (lambda_same.of_imp fun s hs => ⟨hs.1, ?_⟩).onward _
  simp only [Bool.and_eq_true] at hlambda
  have hat : s.current.kind = .openBrace := of_decide_eq_true (hs.2.trans hlambda.1.1)
  rw [hat]
  decide

/-- A call begins with its arguments, or with the lambda. -/
theorem call_same (hr : rec.Sound) (start : Nat) (callee : NodeId) (list : Option NodeId)
    (typeArguments : Array NodeId) :
    SameFrom (State.Few source (n + 1)) (call rec start callee list typeArguments)
      (call rec' start callee list typeArguments) := by
  have h := carries_since hr source 0 n
  have harguments : SameFrom (Amid (State.Few source (n + 1))) (valueArgumentList rec)
      (valueArgumentList rec') := .look fun _ => .first rec rec'
  refine .ifAt (by decide) ?_ ?_
  · refine .bind harguments (Q := fun _ => State.Few source n) ?_ fun _ => .of_parallel rec rec'
    exact few_of_since (h.valueArgumentList.of_imp fun _ hs => .inr hs)
  · exact .bind (.refl _) (.pure _) fun _ => trailingLambda_same.onward _

theorem typeArgumentsThenCall_same (hr : rec.Sound) (start : Nat) (left : NodeId) :
    SameFrom (Amid (State.Few source (n + 1))) (typeArgumentsThenCall rec start left)
      (typeArgumentsThenCall rec' start left) := by
  have h := carries_since hr source 0 n
  have hlist : SameFrom (Amid (State.Few source (n + 1))) (typeArgumentList rec) (typeArgumentList rec') :=
    .look fun _ => .first rec rec'
  refine .bind hlist (Q := fun _ => State.Few source n) ?_ fun _ => .of_parallel rec rec'
  exact few_of_since (h.typeArgumentList.of_imp fun _ hs => .inr hs)

theorem postfixStep_same (hr : rec.Sound) (start : Nat) (left : NodeId) :
    SameFrom (State.Few source (n + 1)) (postfixStep rec start left) (postfixStep rec' start left) := by
  refine .look fun startsLine => .lookKind fun k => ?_
  split
  iterate 2
    · exact .refl _
  · exact .ite (.map ((call_same hr _ _ _ _).of_imp fun _ hs => hs.1)) (.refl _)
  · exact .look fun _ => .ite (.facing (by decide) (.map (typeArgumentsThenCall_same hr _ _))) (.refl _)
  · exact .look fun _ => .look fun _ => .ite (.map ((call_same hr _ _ _ _).of_imp fun _ hs => hs.1)) (.refl _)
  · exact .ite (.facing (by decide) (.map (.first rec rec'))) (.refl _)
  iterate 5
    · exact .refl _

theorem postfixed_same (hr : rec.Sound)
    (hdeclaration : SameFrom (State.Few source (n + 1)) (rec .declaration) (rec' .declaration)) :
    SameFrom (State.Few source (n + 1)) (postfixed rec) (postfixed rec') := by
  have hcarries := few_carries hr source (n + 1)
  refine .look fun start => .bind (primary_same hdeclaration) hcarries.primary fun first => ?_
  cases first with
  | none => exact .refl _
  | some first =>
    refine .map (.repeating (fun left => ?_) (postfixStep_same hr start) first)
    exact hcarries.postfixStep start left (fun _ hs => hs) fun _ _ hs => hs.1

theorem prefixed_same (hr : rec.Sound)
    (hdeclaration : SameFrom (State.Few source (n + 1)) (rec .declaration) (rec' .declaration)) :
    SameFrom (State.Few source (n + 1)) (prefixed rec) (prefixed rec') := by
  have hstays := since_stays source 0 (n + 1)
  refine .lookKind fun operator => .branch (fun hprefix => ?_) fun _ => ?_
  · refine .facing ?_ (.nested (Q := Amid (State.Few source (n + 1))) ?_ fun s _ hs _ _ => ?_)
    · rintro rfl
      cases hprefix
    · exact .look fun _ => .first rec rec'
    · exact ⟨hstays.tokens s _ rfl hs.1, hs.2⟩
  · exact (postfixed_same hr hdeclaration).of_imp fun _ hs => hs.1

theorem castStep_same (start : Nat) (left : NodeId) :
    SameFrom (State.Few source (n + 1)) (castStep rec start left) (castStep rec' start left) := by
  refine .lookKind fun operator => .look fun startsLine => ?_
  refine .branch (fun hcast => .facing ?_ (.first rec rec')) fun _ => .refl _
  rintro rfl
  simp at hcast

theorem operand_same (hr : rec.Sound)
    (hprefixed : SameFrom (State.Few source (n + 1)) (rec .prefixed) (rec' .prefixed)) :
    SameFrom (State.Few source (n + 1)) (operand rec) (operand rec') := by
  have hcarries := few_carries hr source (n + 1)
  refine .look fun start => .bind hprefixed (hcarries.recur _) fun first => ?_
  cases first with
  | none => exact .refl _
  | some first => exact .map (.repeating (hcarries.castStep start) (castStep_same start) first)

theorem binaryStep_same (m start : Nat) (left : NodeId) :
    SameFrom (State.Few source (n + 1)) (binaryStep rec m start left) (binaryStep rec' m start left) := by
  refine .lookKind fun operator => ?_
  split
  · exact .refl _
  · rename_i precedence hprecedence
    have hk : operator ≠ .endOfFile := ne_endOfFile_of_precedence? hprecedence
    refine .look fun startsLine => .facing hk (.ite (.refl _) (.ite ?_ ?_))
    · exact .first rec rec'
    · exact .first rec rec'

theorem binary_same (hr : rec.Sound)
    (hprefixed : SameFrom (State.Few source (n + 1)) (rec .prefixed) (rec' .prefixed)) (m : Nat) :
    SameFrom (State.Few source (n + 1)) (binary rec m) (binary rec' m) := by
  have hcarries := few_carries hr source (n + 1)
  have hnode := (since_stays source 0 (n + 1)).node
  refine .look fun start => .bind (operand_same hr hprefixed) hcarries.operandWithCasts fun first => ?_
  cases first with
  | none => exact .refl _
  | some first =>
    exact .map (.repeating (hcarries.binaryStep hnode m start) (binaryStep_same m start) first)

theorem statement_same (hr : rec.Sound)
    (hdeclaration : SameFrom (State.Few source (n + 1)) (rec .declaration) (rec' .declaration))
    (hexpression : SameFrom (State.Few source (n + 1)) (rec .expression) (rec' .expression)) :
    SameFrom (State.Few source (n + 1)) (statement rec) (statement rec') := by
  refine .look fun atDeclaration => .ite hdeclaration ?_
  refine .look fun start => .bind hexpression ((few_carries hr source (n + 1)).recur _) fun target => ?_
  cases target with
  | none => exact .refl _
  | some target =>
    refine .lookKind fun operator => .look fun startsLine => ?_
    refine .branch (fun _ => .refl _) fun hassigned => .facing ?_ (.first rec rec')
    rintro rfl
    simp [TokenKind.isAssignmentOperator] at hassigned

/-- A production runs alike with productions that run alike: all of them after a token has been taken, and
those of a lower rank before. -/
theorem production_same (hr : rec.Sound) {nt : Nonterminal}
    (hsame : ∀ nt' : Nonterminal, nt'.rank < nt.rank → SameFrom (State.Few source (n + 1)) (rec nt') (rec' nt')) :
    SameFrom (State.Few source (n + 1)) (production rec nt) (production rec' nt) := by
  cases nt with
  | declaration => exact declaration_same hr
  | typeReference limit => exact typeReference_same hr limit
  | prefixed => exact prefixed_same hr (hsame .declaration (by decide))
  | binary m => exact binary_same hr (hsame .prefixed (by decide : 1 < 2)) m
  | expression =>
    refine .nested (hsame (.binary 0) (by decide)) fun s _ hs _ _ => ?_
    exact (since_stays source 0 (n + 1)).tokens s _ rfl hs
  | statement => exact statement_same hr (hsame .declaration (by decide)) (hsame .expression (by decide))

end

/-- Any two nestings of six levels for each token run alike. -/
theorem productions_same {source : String} (d e n : Nat) (nt : Nonterminal) (hd : 6 * n + nt.rank < d)
    (he : 6 * n + nt.rank < e) :
    SameFrom (State.Few source (n + 1)) (productions d nt) (productions e nt) := by
  induction d generalizing e n nt with
  | zero => exact absurd hd (Nat.not_lt_zero _)
  | succ d ih =>
    obtain ⟨e, rfl⟩ := Nat.exists_eq_succ_of_ne_zero (Nat.ne_zero_of_lt he)
    have hbelow : (productions d).Alike (State.Few source n) (productions e) := by
      refine (since_stays source 0 n).alike (productions_sound d) fun nt' s o s' hs h => ?_
      -- There are fewer tokens ahead than before.
      have hrank := nt'.rank_le
      have hfewer := hs.fewer
      exact ih e s.ahead.length nt' (by omega) (by omega) ⟨hs.ahead, hs.later, Nat.lt_succ_self _⟩ h
    exact production_same (productions_sound d) fun nt' hlt => ih e n nt' (by omega) (by omega)

/-- A bound on nesting that covers the tokens of a source is not felt in its parse. -/
theorem sourceFile_nesting (fileName source : String) (depth : Nat)
    (hdepth : nestingBound (State.ofSource fileName source).tokens.length ≤ depth) :
    (sourceFile (productions depth)).run (State.ofSource fileName source) =
      (sourceFile (productions (nestingBound (State.ofSource fileName source).tokens.length))).run
        (State.ofSource fileName source) := by
  generalize hstart : State.ofSource fileName source = start at hdepth ⊢
  have hfew : State.Few source (start.ahead.length + 1) start :=
    ⟨hstart ▸ ahead_ofSource fileName source, Nat.zero_le _, Nat.lt_succ_self _⟩
  have halike : (productions depth).Alike (State.Few source (start.ahead.length + 1))
      (productions (nestingBound start.tokens.length)) := by
    refine (since_stays source 0 _).alike (productions_sound depth) fun nt => ?_
    have hrank := nt.rank_le
    simp only [nestingBound, State.tokens, List.length_cons] at hdepth ⊢
    exact productions_same _ _ _ nt (by omega) (by omega)
  have hfile : SameFrom (State.Few source (start.ahead.length + 1)) (sourceFile (productions depth))
      (sourceFile (productions (nestingBound start.tokens.length))) :=
    .of_parallel (productions depth) (productions (nestingBound start.tokens.length))
  exact hfile.run_eq hfew

/-- Each round of a repetition is the last one or comes to a token that starts later, and so does each round of
a scan over the tokens ahead. A parse never stops for a bound on nesting, and makes one leaf of each token
before the end of the file and no more leaves of this end than there are tokens with it, so that the size of
the source bounds how many there are. -/
theorem parse_progresses (fileName source : String) :
    (∀ (depth : Nat) {σ : Type} {step : σ → Parser (Step σ)} {s s' : State} {x y : σ},
      Repetition (productions depth) step → Ahead source s.tokens → Runs (repeating step x) s y s' →
        Rounds step s x s' y) ∧
    (∀ ts, Left source ts →
      (∀ depth, Scans closeRound depth ts (typeArgumentsClose depth ts)) ∧
      (∀ depth, Scans afterRound depth ts (afterTypeArguments depth ts)) ∧
      (∀ depth, Scans arrowRound depth ts (lambdaParametersAhead depth ts)) ∧
      Scans accessorRound () ts (isAccessorAhead ts) ∧ Scans receiverRound 0 ts (receiverLength ts)) ∧
    (∀ depth, nestingBound (State.ofSource fileName source).tokens.length ≤ depth →
      (sourceFile (productions depth)).run (State.ofSource fileName source) =
        (sourceFile (productions (nestingBound (State.ofSource fileName source).tokens.length))).run
          (State.ofSource fileName source)) ∧
    (ParsedUnit.ofSource fileName source).forest.tokenLeaves + 1 = (Token.ofSource source).length ∧
    (ParsedUnit.ofSource fileName source).forest.endLeaves ≤ (Token.ofSource source).length ∧
    (ParsedUnit.ofSource fileName source).forest.tokenLeaves +
      (ParsedUnit.ofSource fileName source).forest.endLeaves ≤ 2 * source.utf8ByteSize + 1 := by
  have htokens := ParsedUnit.tokenLeaves_ofSource fileName source
  have hends := ParsedUnit.endLeaves_ofSource fileName source
  have hlength := (Token.ofSource_cuts source).length_le
  -- Each part is a result of its own; the bound on all leaves follows from the two on their kinds.
  refine ⟨fun depth _ _ _ _ _ _ h hs hrun => ?_, fun ts hts => ?_, fun depth hdepth => ?_, htokens, hends, ?_⟩
  · exact rounds_of_runs depth h hs hrun
  · exact scans_of_left hts
  · exact sourceFile_nesting fileName source depth hdepth
  · omega

end KotlinTree.Grammar
