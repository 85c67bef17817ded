import KotlinTree.Proofs.Grammar.Keeps
import KotlinTree.Proofs.Grammar.Parameter

/-!
What lasts through names, arguments, modifiers, types and parameters.
-/

namespace KotlinTree.Grammar

namespace Persists

variable {I : State → Prop}

theorem nameChainStep (hI : Persists I) (limit : Option Nat) (allowStar : Bool) (start : Nat)
    (x : NodeId × Nat × Array NodeId) : Keeps I (nameChainStep limit allowStar start x) := by
  refine .seeAt (by decide) fun atDot => .seenWith ?_ (.pure _)
  refine .lookNext fun next => .branch (fun hname => ?_) fun _ => .branch (fun hstar => ?_) fun _ => ?_
  · refine (hI.bump.of_imp fun _ hs => hs.1).bind fun dot => hI.bumpName.bind fun name => ?_
    exact (hI.node _ _ _ _ rfl).bind fun access => .pure _
  · have hnext : next ≠ .endOfFile := by
      rintro rfl
      simp at hstar
    exact (hI.bump.bumpToward hnext).bind fun dot => hI.bump.bind fun asterisk => .pure _
  · exact .of_imp (.pure _) fun _ hs => hs.1.1

theorem nameChain (hI : Persists I) (limit : Option Nat) (allowStar : Bool) :
    Keeps I (nameChain limit allowStar) := by
  refine .look fun start => hI.bumpName.bind fun first => ?_
  cases first with
  | none => exact .pure _
  | some first => exact (Keeps.repeating (hI.nameChainStep _ _ _) _).bind fun chain => .pure _

theorem nullabilityStep (hI : Persists I) (x : Array NodeId × Bool) : Keeps I (nullabilityStep x) := by
  refine .seeAt (by decide) fun atQuestion => .look fun startsLine => .seenWith ?_ (.pure _)
  exact hI.bump.bind fun question => .pure _

theorem finishType (hI : Persists I) (start : Nat) (cs : Array NodeId) (name : Option NodeId)
    (typeArguments : Array NodeId) : Keeps I (finishType start cs name typeArguments) := by
  refine (Keeps.repeating hI.nullabilityStep _).bind fun marked => ?_
  exact (hI.node _ _ _ _ rfl).bind fun id => .pure _

theorem varianceStep (hI : Persists I) (cs : Array NodeId) : Keeps I (varianceStep cs) := by
  refine .look fun atIn => .look fun atOut => .look fun atReified => .lookNext fun next => ?_
  refine .branch (fun hword => hI.toward ?_ ?_) fun _ => .of_imp (.pure _) fun _ hs => hs.1
  · rintro rfl
    simp at hword
  · exact hI.bump.bind fun word => .pure _

end Persists

namespace Carries

variable {rec : Productions} {ready kept blank : State → Prop}

theorem valueArgument (h : Carries rec ready kept blank) : Keeps kept (valueArgument rec) := by
  refine .look fun start => .know fun atName => .lookNext fun next => ?_
  extract_lets afterName
  have hafter (x : Option NodeId × Array NodeId) : Keeps kept (afterName x) := by
    refine (h.eat (by decide)).bind fun spread => (h.recur .expression).bind fun expression => ?_
    refine .ite (.pure _) ?_
    exact (h.node _ _ _ _ rfl).bind fun id => .pure _
  refine .branch (fun hnamed => ?_) fun _ => .bind (.pure _) fun x => (hafter x).of_imp fun _ hs => hs.1.1
  obtain ⟨rfl, hnext⟩ : atName = true ∧ next = .equals := by simpa using hnamed
  refine (h.bumpNameNext.of_imp fun s hs => ⟨hs.1.1, hs.1.2, ?_⟩).bind fun name => ?_
  · rw [hs.2, hnext]
    decide
  · exact h.bump.bind fun equals => .bind (.pure _) hafter

theorem valueArgumentStep (h : Carries rec ready kept blank) (x : Array NodeId × Array NodeId) :
    Keeps kept (valueArgumentStep rec x) := by
  refine .lookKind fun k => ?_
  split
  iterate 2
    · exact .facingAny (.pure _)
  · exact .facing (by decide) (h.bump.bind fun comma => .pure _)
  iterate 2
    · exact .facing (by decide) (h.keptAlone fun token => .pure _)
  · exact .instead ‹_› h.valueArgument (fun _ _ hr => (valueArgument_yields h.sound hr).eq_of_none)
      (fun argument => .pure _) (h.keptAlone fun token => .pure _)

theorem valueArgumentList (h : Carries rec ready kept blank) :
    Leads ready (valueArgumentList rec) fun _ => kept := by
  refine .look fun start => h.first.bind fun opened => ?_
  refine (h.withTrailingLambda (Keeps.repeating h.valueArgumentStep _) _).bind fun listed => ?_
  exact (h.eat (by decide)).bind fun closed => (h.node _ _ _ _ rfl).bind fun list => .pure _

theorem annotationUse (h : Carries rec ready kept blank) : Leads ready (annotationUse rec) fun _ => kept := by
  refine .look fun start => h.first.bind fun sign => (h.nameChain _ _).bind fun name => ?_
  refine .seeAt (by decide) fun atColon => .look fun isAttached => ?_
  extract_lets finish afterTarget
  have hfinish (cs : Array NodeId) : Keeps kept (finish cs) := h.node _ _ _ _ rfl
  have hafter (cs : Array NodeId) : Keeps kept (afterTarget cs) := by
    refine .seeAt (by decide) fun atParen => .look fun isAttached => ?_
    refine .seenWith ?_ (.bind (.pure _) hfinish)
    exact (h.again h.valueArgumentList).bind fun list => .bind (.pure _) hfinish
  refine .seenWith ?_ (.bind (.pure _) hafter)
  exact h.bump.bind fun colon => (h.nameChain _ _).bind fun name => .bind (.pure _) hafter

theorem modifierStep (h : Carries rec ready kept blank) (x : Array NodeId × List Modifier) :
    Keeps kept (modifierStep rec x) := by
  refine .ifAt (by decide) ?_ (.seeModifier fun atModifier => .seen id ?_ (.pure _))
  · exact (h.again h.annotationUse).bind fun annotation => .pure _
  · exact .look fun s => h.bump.bind fun word => .pure _

theorem modifiers (h : Carries rec ready kept blank) (cs : Array NodeId) : Keeps kept (modifiers rec cs) := by
  refine .look fun start => (Keeps.repeating h.modifierStep _).bind fun found => .ite (.pure _) ?_
  exact (h.node _ _ _ _ rfl).bind fun list => .pure _

theorem functionTypeStep (h : Carries rec ready kept blank) (cs : Array NodeId) :
    Keeps kept (functionTypeStep rec cs) := by
  refine .lookKind fun k => ?_
  split
  iterate 2
    · exact .facingAny (.pure _)
  · exact .facing (by decide) (h.bump.bind fun comma => .pure _)
  · refine .lookNext fun next => ?_
    extract_lets afterName
    have hafter (cs : Array NodeId) : Leads blank (afterName cs) fun _ => kept :=
      h.typedOr (fun _ => .pure _) (h.untyped.bind fun token => .pure _)
    refine .branch (fun hnamed => ?_) fun _ => ?_
    · obtain ⟨hname, hcolon⟩ : k.isName = true ∧ next = .colon := by simpa using hnamed
      refine .pair (h.named.of_imp fun s hs => ⟨hs.1.1, ?_, hs.2.trans hcolon⟩) fun name colon => hafter _
      rw [hs.1.2]
      exact hname
    · rename_i hend _ _
      exact (hafter cs).of_imp fun s hs => h.blank_of_amid s ⟨hs.1.1, hs.1.2 ▸ hend⟩

theorem functionTypeRest (h : Carries rec ready kept blank) (cs : Array NodeId) :
    Leads ready (functionTypeRest rec cs) fun _ => kept := by
  refine h.first.bind fun opened => (Keeps.repeating h.functionTypeStep _).bind fun listed => ?_
  refine (h.eat (by decide)).bind fun closed => .ifAt (by decide) ?_ (.pure _)
  exact h.bump.bind fun arrow => (h.recur (.typeReference none)).bind fun result => .pure _

theorem typeArgumentStep (h : Carries rec ready kept blank) (x : Array NodeId × Array NodeId) :
    Keeps kept (typeArgumentStep rec x) := by
  refine .lookKind fun k => ?_
  split
  iterate 2
    · exact .facingAny (.pure _)
  iterate 2
    · exact .facing (by decide) (h.bump.bind fun token => .pure _)
  · rename_i hend _ _
    refine .look fun atOut => .lookNext fun next => ?_
    extract_lets afterVariance
    have hafter (cs : Array NodeId) : Leads blank (afterVariance cs) fun _ => kept :=
      h.typedOr (fun _ => .pure _) (h.untyped.bind fun token => .pure _)
    have hrest (cs : Array NodeId) : Leads (Amid kept) (afterVariance cs) fun _ => kept :=
      (hafter cs).of_imp h.blank_of_amid
    refine .branch (fun hword => ?_) fun _ => (Leads.facing hend (hrest _)).of_imp fun _ hs => hs.1
    obtain ⟨-, rfl⟩ : _ ∧ next = .identifier := by simpa using hword
    exact ((Leads.facing hend h.bump).bumpToward (by decide)).bind fun word => hrest _

theorem typeArgumentList (h : Carries rec ready kept blank) :
    Leads ready (typeArgumentList rec) fun _ => kept := by
  refine .look fun start => h.first.bind fun opened => ?_
  refine (Keeps.repeating h.typeArgumentStep _).bind fun listed => ?_
  refine (h.eat (by decide)).bind fun closed => ?_
  exact (h.node _ _ _ _ rfl).bind fun list => .pure _

/-- A named type, from a name on. -/
theorem namedType (h : Carries rec ready kept blank) {P : State → Prop} (limit : Option Nat) (start : Nat)
    (cs : Array NodeId) (hchain : Leads P (Grammar.nameChain limit false) fun _ => kept) :
    Leads P (namedType rec limit start cs) fun _ => kept := by
  refine hchain.bind fun name => .seeAt (by decide) fun atLess => .look fun startsLine => ?_
  extract_lets afterArguments
  have hafter (x : Array NodeId × Array NodeId) : Keeps kept (afterArguments x) := by
    refine .seeAt (by decide) fun atDot => .lookNext fun next => ?_
    refine .branch (fun hfunction => ?_) fun _ => .of_imp (h.finishType _ _ _ _) fun _ hs => hs.1.1
    -- The parenthesis after the dot is seen before the dot is taken.
    obtain ⟨rfl, rfl⟩ : atDot = true ∧ next = .openParen := by simpa using hfunction
    have hdot : Leads (Seeing kept true) Grammar.bump fun _ => kept :=
      h.bump.of_imp fun _ hs => ⟨hs.1, hs.2 rfl⟩
    refine (hdot.bumpToward (by decide)).bind fun dot => ?_
    exact (h.again (h.functionTypeRest _)).bind fun cs => h.finishType _ _ _ _
  refine .seenWith ?_ (.bind (.pure _) hafter)
  exact (h.again h.typeArgumentList).bind fun listed => .bind (.pure _) hafter

theorem writtenType (h : Carries rec ready kept blank) (cs : Array NodeId) :
    Keeps kept (typeAscription rec cs) := by
  refine .ifAt (by decide) ?_ (.pure _)
  exact h.bump.bind fun colon => (h.recur (.typeReference none)).bind fun type => .pure _

theorem assignedValue (h : Carries rec ready kept blank) (cs : Array NodeId) :
    Keeps kept (assignedValue rec cs) := by
  refine .ifAt (by decide) ?_ (.pure _)
  exact h.bump.bind fun equals => (h.recur .expression).bind fun value => .pure _

theorem parameter (h : Carries rec ready kept blank) : Keeps kept (parameter rec) := by
  refine .look fun start => (h.modifiers _).bind fun found => ?_
  refine .seeAt (by decide) fun isVar => .seeAt (by decide) fun isVal => ?_
  extract_lets afterKeyword
  have hafter (keyword : Option NodeId) : Keeps kept (afterKeyword keyword) := by
    refine h.bumpName.bind fun name => .ite (.pure _) ?_
    refine (h.writtenType _).bind fun typed => (h.assignedValue _).bind fun valued => ?_
    exact (h.node _ _ _ _ rfl).bind fun id => .pure _
  refine .seenEither ?_ (.bind (.pure _) hafter)
  exact (Leads.map h.bump).bind hafter

theorem parameterStep (h : Carries rec ready kept blank) (x : Array NodeId × Array NodeId) :
    Keeps kept (parameterStep rec x) := by
  refine .lookKind fun k => ?_
  split
  iterate 3
    · exact .facingAny (.pure _)
  · exact .facing (by decide) (h.bump.bind fun comma => .pure _)
  · exact .instead ‹_› h.parameter (fun _ _ hr => (parameter_yields h.sound hr).eq_of_none)
      (fun parameter => .pure _) (h.keptAlone fun token => .pure _)

theorem parameterList (h : Carries rec ready kept blank) (cs : Array NodeId) :
    Leads (Amid kept) (parameterList rec cs) fun _ => kept := by
  refine h.bump.bind fun opened => (Keeps.repeating h.parameterStep _).bind fun listed => ?_
  exact (h.eat (by decide)).bind fun closed => .pure _

theorem parametersIfAny (h : Carries rec ready kept blank) (cs : Array NodeId) :
    Keeps kept (parametersIfAny rec cs) :=
  .ifAt (by decide) (h.parameterList _) (.pure _)

theorem typeParameter (h : Carries rec ready kept blank) : Keeps kept (typeParameter rec) := by
  refine .look fun start => (Keeps.repeating h.varianceStep _).bind fun cs => ?_
  refine h.bumpName.bind fun name => ?_
  cases name with
  | none => exact .pure _
  | some name =>
    exact (h.writtenType _).bind fun typed => (h.node _ _ _ _ rfl).bind fun id => .pure _

theorem typeParameterStep (h : Carries rec ready kept blank) (cs : Array NodeId) :
    Keeps kept (typeParameterStep rec cs) := by
  refine .lookKind fun k => ?_
  split
  iterate 2
    · exact .facingAny (.pure _)
  · exact .facing (by decide) (h.bump.bind fun comma => .pure _)
  · exact .instead ‹_› h.typeParameter (fun _ _ hr => (typeParameter_yields h.sound hr).eq_of_none)
      (fun parameter => .pure _) (h.keptAlone fun token => .pure _)

theorem typeParametersIfAny (h : Carries rec ready kept blank) : Keeps kept (typeParametersIfAny rec) := by
  refine .ifAt (by decide) (.look fun start => h.bump.bind fun opened => ?_) (.pure _)
  refine (Keeps.repeating h.typeParameterStep _).bind fun cs => (h.eat (by decide)).bind fun closed => ?_
  exact (h.node _ _ _ _ rfl).bind fun id => .pure _

end Carries

end KotlinTree.Grammar
