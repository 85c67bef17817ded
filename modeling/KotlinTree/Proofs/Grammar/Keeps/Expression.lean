import KotlinTree.Proofs.Grammar.Expression
import KotlinTree.Proofs.Grammar.Keeps.Declaration
import KotlinTree.Proofs.Grammar.Unit

/-!
What lasts through primary expressions and the operators after them, all of which are operands. What
lasts through the taking of any token before the end of the file, the making of any node and an
accessor lasts through every production.
-/

namespace KotlinTree.Grammar

namespace Persists

variable {I : State → Prop}

/-- A label is only taken where an at-sign is seen, which is no end of the file. -/
theorem labelIfAny (hI : Persists I) (cs : Array NodeId) : Keeps I (labelIfAny cs) := by
  refine .seeAt (by decide) fun atSign => .look fun isAttached => .seenWith ?_ (.pure _)
  exact hI.bump.bind fun sign => hI.bumpName.bind fun label => .pure _

/-- The expression that names the receiver is an operand, made of a token or two that are known to be
there. -/
theorem thisExpression (hI : Persists I) : Leads (Amid I) thisExpression (Operand I) := by
  refine .look fun start => hI.bump.bind fun keyword => (hI.labelIfAny _).bind fun labelled => ?_
  exact hI.operand rfl _ _ _

/-- A callable reference begins with its colons, the first token, and is an operand with or without a
receiver. -/
theorem callableReference (hI : Persists I) {P : State → Prop} (hfirst : Leads P Grammar.bump fun _ => I)
    (start : Nat) (receiver : Option NodeId) :
    Leads P (callableReference start receiver) (Operand I) := by
  refine hfirst.bind fun colons => .seeAt (by decide) fun atClass => ?_
  extract_lets finish
  have hfinish (name : Option NodeId) : Leads I (finish name) (Operand I) := hI.operand rfl _ _ _
  exact .seen id ((Leads.map hI.bump).bind hfinish) (hI.bumpName.bind hfinish)

/-- An access begins with its operator; that it is null-safe is noted afterwards, which nothing can see.
-/
theorem memberAccess (hI : Persists I) {P : State → Prop} (hfirst : Leads P Grammar.bump fun _ => I)
    (start : Nat) (left : NodeId) : Leads P (memberAccess start left) (Operand I) := by
  refine .look fun isNullSafe => hfirst.bind fun operator => hI.bumpName.bind fun name => ?_
  refine (hI.operand rfl _ _ _).bind fun access => .ite ?_ (.yield fun _ hs => hs)
  exact (hI.operand_change cosmetic_nullSafe).bind fun _ => .yield fun _ hs => hs

/-- An operator that stands after its operand makes an operand of both. -/
theorem postfixOperator (hI : Persists I) {P : State → Prop} (hfirst : Leads P Grammar.bump fun _ => I)
    (start : Nat) (left : NodeId) : Leads P (postfixOperator start left) (Operand I) :=
  .look fun _ => hfirst.bind fun _ => hI.operand rfl _ _ _

end Persists

namespace Carries

variable {rec : Productions} {ready kept blank : State → Prop}

/-- The type between angle brackets begins after the first of them has been taken. -/
theorem superType (h : Carries rec ready kept blank) (cs : Array NodeId) : Keeps kept (superType rec cs) := by
  refine .seeAt (by decide) fun atLess => .look fun isAttached => ?_
  refine .seenWith (h.bump.bind fun opened => ?_) (.pure _)
  exact (h.recur (.typeReference none)).bind fun type => (h.eat (by decide)).bind fun closed => .pure _

/-- The expression that names the supertype's receiver begins with its keyword. -/
theorem superExpression (h : Carries rec ready kept blank) :
    Leads ready (superExpression rec) (Operand kept) := by
  refine .look fun start => h.first.bind fun keyword => (h.superType _).bind fun typed => ?_
  exact (h.labelIfAny _).bind fun labelled => h.operand rfl _ _ _

/-- What is in parentheses begins after the first of them has been taken. -/
theorem parenthesized (h : Carries rec ready kept blank) : Leads ready (parenthesized rec) (Operand kept) := by
  refine .look fun start => h.first.bind fun opened => ?_
  refine (h.withTrailingLambda (h.recur .expression) _).bind fun expression => ?_
  exact (h.eat (by decide)).bind fun closed => h.operand rfl _ _ _

/-- An alternative begins after its keyword has been seen and taken. -/
theorem elseBranch (h : Carries rec ready kept blank) (cs : Array NodeId) : Keeps kept (elseBranch rec cs) := by
  refine .seeAt (by decide) fun atSemicolon => .look fun next => ?_
  extract_lets afterSemicolon
  have hafter (cs : Array NodeId) : Keeps kept (afterSemicolon cs) := by
    refine .ifAt (by decide) (h.bump.bind fun keyword => ?_) (.pure _)
    exact h.controlBody.bind fun branch => .pure _
  exact .seenWith (h.bump.bind fun semicolon => .bind (.pure _) hafter) (.bind (.pure _) hafter)

/-- A condition with its branches begins with its keyword. -/
theorem ifExpression (h : Carries rec ready kept blank) : Leads ready (ifExpression rec) (Operand kept) := by
  refine .look fun start => h.first.bind fun keyword => (h.eat (by decide)).bind fun opened => ?_
  refine (h.withTrailingLambda ?_ _).bind fun parts => h.operand rfl _ _ _
  refine (h.recur .expression).bind fun condition => (h.eat (by decide)).bind fun closed => ?_
  exact h.controlBody.bind fun branch => (h.elseBranch _).bind fun otherwise => .pure _

/-- A return begins with its keyword. -/
theorem returnExpression (h : Carries rec ready kept blank) :
    Leads ready (returnExpression rec) (Operand kept) := by
  refine .look fun start => h.first.bind fun keyword => (h.labelIfAny _).bind fun labelled => ?_
  refine .look fun startsLine => ?_
  extract_lets finish
  have hfinish (value : Option NodeId) : Leads kept (finish value) (Operand kept) :=
    h.operand rfl _ _ _
  exact .ite (.bind (.pure _) hfinish) ((h.recur .expression).bind hfinish)

/-- A jump begins with its keyword. -/
theorem jumpExpression (h : Carries rec ready kept blank) :
    Leads ready (jumpExpression rec) (Operand kept) := by
  refine .look fun start => .look fun isThrow => h.first.bind fun keyword => ?_
  refine (h.labelIfAny _).bind fun labelled => ?_
  extract_lets finish
  have hfinish (cs : Array NodeId) : Leads kept (finish cs) (Operand kept) := h.operand rfl _ _ _
  exact .ite ((h.recur .expression).bind fun thrown => hfinish _) (hfinish _)

/-- A lambda after the arguments begins at a brace that has been seen. -/
theorem trailingLambda (h : Carries rec ready kept blank) : Keeps kept (trailingLambda rec) := by
  refine .seeAt (by decide) fun atBrace => .look fun startsLine => .look fun s => ?_
  simp only [Bool.and_assoc]
  refine .seenWith ?_ (.pure _)
  exact (h.again h.lambda.forget).bind fun lambda => .pure _

/-- A call is an operand that has begun before, with its callee. -/
theorem call (h : Carries rec ready kept blank) (start : Nat) (callee : NodeId) (list : Option NodeId)
    (typeArguments : Array NodeId) : Leads kept (call rec start callee list typeArguments) (Operand kept) := by
  refine .seeAt (by decide) fun atParen => ?_
  extract_lets afterArguments
  have hafter (x : Option NodeId × Array NodeId) : Leads kept (afterArguments x) (Operand kept) :=
    h.trailingLambda.bind fun last => h.operand rfl _ _ _
  refine .seen id ?_ (.bind (.pure _) hafter)
  exact (h.again h.valueArgumentList).bind fun listed => .bind (.pure _) hafter

/-- Type arguments begin at the bracket that has been looked ahead of, and a call follows. -/
theorem typeArgumentsThenCall (h : Carries rec ready kept blank) (start : Nat) (left : NodeId) :
    Leads ready (typeArgumentsThenCall rec start left) (Operand kept) := by
  refine h.typeArgumentList.bind fun listed => .look fun atParen => .look fun atBrace => ?_
  exact .ite (h.call _ _ _ _) (h.operand rfl _ _ _)

/-- An index is taken until the bracket that ends the list. -/
theorem indexStep (h : Carries rec ready kept blank) (cs : Array NodeId) : Keeps kept (indexStep rec cs) := by
  refine .lookKind fun k => ?_
  split
  iterate 2
    · exact .facingAny (.pure _)
  · exact .facing (by decide) (h.bump.bind fun comma => .pure _)
  · exact .instead ‹_› (h.recur .expression) (fun _ _ hr => (h.sound.expression hr).eq_of_none)
      (fun index => .pure _) (h.keptAlone fun token => .pure _)

/-- Indices begin with the bracket, and the node around them is an operand. -/
theorem indexing (h : Carries rec ready kept blank) (start : Nat) (left : NodeId) :
    Leads ready (indexing rec start left) (Operand kept) := by
  refine h.first.bind fun opened => (Keeps.repeating h.indexStep _).bind fun cs => ?_
  exact (h.eat (by decide)).bind fun closed => h.operand rfl _ _ _

/-- A postfix operator makes an operand of what it is over. -/
theorem postfixStep (h : Carries rec ready kept blank) {J : NodeId → State → Prop} (start : Nat)
    (left : NodeId) (hkept : ∀ s, J left s → kept s) (hmade : ∀ id s, Operand kept id s → J id s) :
    Leads (J left) (postfixStep rec start left) fun r => J r.value := by
  -- What is to be taken has been looked at, so that the file has not ended.
  have hmore {p : Parser NodeId} {k : TokenKind} (hk : k ≠ .endOfFile)
      (hp : Leads (Amid kept) p (Operand kept)) :
      Leads (Facing (J left) k) (Step.more <$> p) fun r => J r.value := by
    refine .map ((hp.mono hmade).of_imp fun s hs => ⟨hkept s hs.1, ?_⟩)
    rw [hs.2]
    exact hk
  have hdone {k : TokenKind} :
      Leads (Facing (J left) k) (pure (Step.done left)) fun r => J r.value :=
    .yield fun _ hs => hs.1
  have hcall := (h.call start left none #[]).amid
  refine .look fun startsLine => .lookKind fun k => ?_
  split
  iterate 2
    · exact hmore (by decide) (h.memberAccess h.bump _ _)
  · exact .ite (hmore (by decide) hcall) hdone
  · exact .look fun s => .ite (hmore (by decide) (h.again (h.typeArgumentsThenCall _ _))) hdone
  · exact .look fun s => .look fun s => .ite (hmore (by decide) hcall) hdone
  · exact .ite (hmore (by decide) (h.again (h.indexing _ _))) hdone
  iterate 3
    · exact .ite (hmore (by decide) (h.postfixOperator h.bump _ _)) hdone
  · exact hmore (by decide) (h.callableReference h.bump _ _)
  · exact hdone

end Carries

instance : Looks isAtDeclaration where
  same s := by
    have hr := runs_bind_kind.mp (runs_self isAtDeclaration s)
    split at hr
    all_goals exact (congrArg Prod.snd hr).symm

/-- A type that is missing has taken nothing but annotations. -/
theorem typeReference_missing {rec : Productions} (hr : rec.Sound) {P : State → Prop}
    (hcontext : ∀ s depth, P s → P { s with depth }) (hmodifiers : Keeps P (modifiers rec #[]))
    (limit : Option Nat) : Leads P (typeReference rec limit) fun o s => o = none → P s := by
  -- The annotations are children for the type that comes after them.
  have hannotations : Leads P (modifiers rec #[]) fun x s => P s ∧ ∃ s₀, Appends s₀ #[] [] s x.1 := by
    rintro s ⟨cs, found⟩ t hs h
    obtain ⟨list, rfl, hlist⟩ := modifiers_yields hr h
    exact ⟨hmodifiers hs h, s, ((Appends.refl s #[]).add hlist.ifAny).mono (List.nil_subset _)⟩
  have hafter (start : Nat) (cs : Array NodeId) :
      Leads (fun s => P s ∧ ∃ s₀, Appends s₀ #[] [] s cs) (typeAfterAnnotations rec limit start cs)
        fun o s => o = none → P s := by
    rintro s o s' ⟨hs, s₀, ha⟩ h rfl
    -- Without a type, no token has been taken since the annotations.
    obtain ⟨-, rfl⟩ | ⟨id, hid, -⟩ := typeAfterAnnotations_makes hr ha h
    · exact hs
    · cases hid
  refine .look fun start => .nested (I := P) ?_ ?_ hcontext fun o s depth hs hnone => hcontext s depth (hs hnone)
  · rintro s id s' - - hnone
    cases hnone
  · refine .look fun atSign => .ite ?_ ?_
    · exact hannotations.bind fun found => .bind (.yield fun _ hs => hs) fun cs => hafter start cs
    · refine .bind (Q := fun cs s => P s ∧ ∃ s₀, Appends s₀ #[] [] s cs) (.yield fun s hs => ?_)
        fun cs => hafter start cs
      exact ⟨hs, s, Appends.refl s #[]⟩

namespace Carries

variable {rec : Productions} {kept blank : State → Prop}

/-- A type after its annotations is one of three forms, or is missing where it has been expected. -/
theorem typeAfterAnnotations (h : Carries rec (Amid kept) kept blank) (limit : Option Nat) (start : Nat)
    (cs : Array NodeId) : Keeps kept (typeAfterAnnotations rec limit start cs) := by
  refine .look fun atSuspend => .lookNext fun next => ?_
  extract_lets afterSuspend
  have hafter (cs : Array NodeId) : Keeps kept (afterSuspend cs) := by
    refine .ifAt (by decide) ((h.functionTypeRest _).bind fun cs => h.finishType _ _ _ _) ?_
    exact .seeName fun atName => .seen id (h.namedType _ _ _ (h.nameChain _ _).amid) (.pure _)
  refine .branch (fun hsuspend => h.toward ?_ ?_) fun _ => (hafter cs).of_imp fun _ hs => hs.1
  · rintro rfl
    simp at hsuspend
  · exact h.bump.bind fun word => hafter _

/-- A type is kept below a state in which it may be missing. -/
theorem typeReference (h : Carries rec (Amid kept) kept blank) (limit : Option Nat) :
    Keeps kept (typeReference rec limit) := by
  refine .look fun start => .nested (I := kept) h.unknown.forget ?_
    (fun _ _ hs => h.context _ _ _ _ hs) (fun _ _ _ hs => h.context _ _ _ _ hs)
  refine .look fun atSign => .ite ?_ ?_
  · refine (h.modifiers _).bind fun found => .bind (.pure _) fun cs => ?_
    exact h.typeAfterAnnotations limit start cs
  · exact .bind (.pure _) fun cs => h.typeAfterAnnotations limit start cs

/-- A declaration is told by its keyword, which has been seen. -/
theorem declaration (h : Carries rec (Amid kept) kept blank)
    (haccessor : KeepsAccessors kept rec) : Keeps kept (declaration rec) := by
  refine .look fun start => (h.modifiers _).bind fun found => .lookKind fun k => ?_
  split
  iterate 2
    · exact .facing (by decide) (.map (h.classDeclaration _ _ _).forget)
  · exact .facing (by decide) (.map (h.objectDeclaration _ _ _).forget)
  · exact .facing (by decide) (.map (h.functionDeclaration _ _ _).forget)
  iterate 2
    · exact .facing (by decide) (.map (h.propertyDeclaration haccessor _ _ _).forget)
  · exact .facing (by decide) (.map (h.secondaryConstructor _ _ _).forget)
  · refine .lookNext fun next => .branch (fun hinit => ?_) fun _ => ?_
    · obtain ⟨hword, hbrace⟩ : k = .initKeyword ∧ next = .openBrace := by simpa using hinit
      refine .map ((h.initializer _ _).forget.of_imp fun s hs => ⟨⟨hs.1.1, ?_⟩, hs.2.trans hbrace⟩)
      rw [hs.1.2, hword]
      decide
    · refine .of_imp (.ite (.pure _) ?_) fun s hs => hs.1.1
      exact .map (h.strayModifiers _ _).forget

/-- An operand begins with a token before the end of the file, or is missing and takes the token for it.
-/
theorem primary (h : Carries rec (Amid kept) kept blank) : Keeps kept (primary rec) := by
  refine .look fun start => .lookKind fun k => ?_
  -- One case for each kind of token that an operand can begin with, then one for all others.
  split
  iterate 7
    · exact .facing (by decide) (.map h.bump)
  · exact .facing (by decide) (.map h.thisExpression.forget)
  · exact .facing (by decide) (.map h.superExpression.forget)
  · exact .facing (by decide) (.map h.parenthesized.forget)
  · exact .facing (by decide) (.map h.lambda.forget)
  · exact .facing (by decide) (.map h.ifExpression.forget)
  · exact .facing (by decide) (.map h.returnExpression.forget)
  iterate 3
    · exact .facing (by decide) (.map h.jumpExpression.forget)
  · exact .facing (by decide) (.map (h.callableReference h.bump _ _).forget)
  · exact .facing (by decide) (.map (h.objectDeclaration _ _ _).forget)
  · exact .facingAny (h.recur _)
  iterate 5
    · exact .facingAny (.map h.unknown.forget)
  iterate 8
    · exact .facingAny (.pure _)
  · refine .facing ‹_› (.ite ?_ (.map h.unknownToken.forget))
    exact .map (h.leaf _ (by decide))

/-- After an operand, each operator has been seen before it is taken. -/
theorem postfixed (h : Carries rec (Amid kept) kept blank) : Keeps kept (postfixed rec) := by
  refine .look fun start => h.primary.bind fun first => ?_
  cases first with
  | none => exact .pure _
  | some first =>
    refine .map (Leads.repeating (J := fun _ => kept) (fun left => ?_) first)
    exact h.postfixStep start left (fun _ hs => hs) fun _ _ hs => hs.1

/-- An operator before its operand has been seen, and the operand is recurred to. -/
theorem prefixed (h : Carries rec (Amid kept) kept blank) : Keeps kept (prefixed rec) := by
  refine .lookKind fun operator => .branch (fun hprefix => ?_) fun _ => .facingAny h.postfixed
  have hk : operator ≠ .endOfFile := by
    rintro rfl
    cases hprefix
  refine .facing hk (.nested (I := Amid kept) h.unknown.forget.amid ?_
    (fun s depth hs => ⟨h.context _ _ _ _ hs.1, hs.2⟩) fun _ _ _ hs => h.context _ _ _ _ hs)
  refine .look fun start => h.bump.bind fun token => (h.recur .prefixed).bind fun operand => ?_
  exact (h.node _ _ _ _ rfl).bind fun id => .pure _

/-- A cast or check is taken where its keyword has been seen. -/
theorem castStep (h : Carries rec (Amid kept) kept blank) (start : Nat) (left : NodeId) :
    Keeps kept (castStep rec start left) := by
  refine .lookKind fun operator => .look fun startsLine => ?_
  refine .branch (fun hcast => .facing ?_ ?_) fun _ => .facingAny (.pure _)
  · rintro rfl
    simp at hcast
  · refine h.bump.bind fun token => (h.recur (.typeReference none)).bind fun type => ?_
    exact .map (h.node _ _ _ _ rfl)

/-- An operand is followed by its casts, each of which keeps what the operand kept. -/
theorem operandWithCasts (h : Carries rec (Amid kept) kept blank) : Keeps kept (Grammar.operand rec) := by
  refine .look fun start => (h.recur .prefixed).bind fun first => ?_
  cases first with
  | none => exact .pure _
  | some first => exact .map (Keeps.repeating (h.castStep start) first)

/-- A step of the climb takes an operator that binds at least as tight as asked, and its right side. -/
theorem binaryStep (h : Carries rec (Amid kept) kept blank)
    (hnode : ∀ k start cs data, Keeps kept (Grammar.node k start cs data)) (m start : Nat) (left : NodeId) :
    Keeps kept (binaryStep rec m start left) := by
  refine .lookKind fun operator => ?_
  split
  · exact .facingAny (.pure _)
  · rename_i precedence hprecedence
    have hk : operator ≠ .endOfFile := by
      rintro rfl
      cases hprecedence
    refine .look fun startsLine => .facing hk (.ite (Leads.amid (.pure _)) (.ite ?_ ?_))
    · refine h.bump.bind fun token => (h.recur (.typeReference none)).bind fun type => ?_
      exact .map (hnode _ _ _ _)
    · refine h.bump.bind fun token => (h.recur (.binary _)).bind fun right => ?_
      exact .map (hnode _ _ _ _)

/-- The climb keeps what each of its steps keeps. -/
theorem binary (h : Carries rec (Amid kept) kept blank)
    (hnode : ∀ k start cs data, Keeps kept (Grammar.node k start cs data)) (m : Nat) :
    Keeps kept (binary rec m) := by
  refine .look fun start => h.operandWithCasts.bind fun first => ?_
  cases first with
  | none => exact .pure _
  | some first => exact .map (Keeps.repeating (h.binaryStep hnode m start) first)

/-- An expression is the climb from the loosest operators. -/
theorem expression (h : Carries rec (Amid kept) kept blank) : Keeps kept (expression rec) :=
  .nested h.unknown.forget (h.recur (.binary 0)) (fun _ _ hs => h.context _ _ _ _ hs)
    fun _ _ _ hs => h.context _ _ _ _ hs

/-- An assignment is an expression, its operator and another expression. -/
theorem assignmentOrExpression (h : Carries rec (Amid kept) kept blank) :
    Keeps kept (assignmentOrExpression rec) := by
  refine .look fun start => (h.recur .expression).bind fun target => ?_
  cases target with
  | none => exact .pure _
  | some target =>
    refine .lookKind fun operator => .look fun startsLine => ?_
    refine .branch (fun _ => .facingAny (.pure _)) fun hassigned => .facing ?_ ?_
    · rintro rfl
      simp [TokenKind.isAssignmentOperator] at hassigned
    · refine h.bump.bind fun token => (h.recur .expression).bind fun value => ?_
      exact (h.node _ _ _ _ rfl).bind fun id => .pure _

/-- A statement is a declaration or an expression, told by what is seen. -/
theorem statement (h : Carries rec (Amid kept) kept blank) : Keeps kept (statement rec) :=
  .look fun _ => .ite (h.recur .declaration) h.assignmentOrExpression

/-- Every production keeps what the productions that it recurs to keep, one production at a time. -/
theorem production (h : Carries rec (Amid kept) kept blank)
    (hnode : ∀ k start cs data, Keeps kept (Grammar.node k start cs data))
    (haccessor : KeepsAccessors kept rec) (n : Nonterminal) :
    Keeps kept (production rec n) := by
  cases n with
  | expression => exact h.expression
  | binary m => exact h.binary hnode m
  | prefixed => exact h.prefixed
  | typeReference limit => exact h.typeReference limit
  | statement => exact h.statement
  | declaration => exact h.declaration haccessor

/-- A file goes on until the file has ended, and only its end is left then. -/
theorem sourceFile {ready : State → Prop} (h : Carries rec ready kept blank) {source : String}
    (hahead : ∀ s, kept s → Ahead source s.tokens) {Q : NodeId → State → Prop}
    (hend : ∀ (parts : FileParts) (package : Option NodeId),
      Leads (fun s => kept s ∧ s.current.isEnd = true) (do
        let endOfFile ← Grammar.bump
        Grammar.node .sourceFile 0 (parts.children.push endOfFile) (.sourceFile
          { fileName := (← get).file, package, imports := parts.imports,
            declarations := parts.declarations, endOfFile })) Q) :
    Leads kept (sourceFile rec) Q := by
  refine .seeAt (by decide) fun atPackage => ?_
  extract_lets afterPackage
  have hafter (package : Option NodeId) : Leads kept (afterPackage package) Q := by
    refine Leads.bind (Q := fun _ s => kept s ∧ s.current.isEnd = true) ?_ fun parts => hend parts package
    intro s parts s' hs hr
    have hstart : FileParts.Made s (add #[] package) s { children := add #[] package } := Adds.refl s _
    -- Each step takes a token or is the last, so that the steps do not run out before the tokens do.
    refine runs_repeating_done
      (I := fun t (x : FileParts) => kept t ∧ x.Made s (add #[] package) t)
      (Q := fun t _ => kept t ∧ t.current.isEnd = true) (fun t x r t' hx hstep => ?_)
      ⟨hs, hstart⟩ hr
    have hkept := h.fileStep x hx.1 hstep
    have hleaves := fileStep_leaves h.sound hx.2 (hahead t hx.1) hstep
    cases r with
    | more y => exact ⟨⟨hkept, hleaves.1⟩, hleaves.2⟩
    | done y => exact ⟨hkept, hleaves.2⟩
  exact .seen id ((Leads.map h.packageDirective).bind hafter) (.bind (.pure _) hafter)

end Carries

end KotlinTree.Grammar
