import KotlinTree.Proofs.Grammar.Parallel

/-!
The context in which tokens are read: how deep they are nested, and whether a brace after a call opens a lambda.
Main statement (`context_restored`): every production leaves the context as it found it, and none is begun
deeper than the limit.
-/

namespace KotlinTree.Grammar

/-- The productions of the grammar, as functions of those that they recur through. -/
inductive Production : {α : Type} → (Productions → Parser α) → Prop
  | recur (nt : Nonterminal) : Production fun rec => rec nt
  | unknown : Production fun _ => unknown
  | unknownToken : Production fun _ => unknownToken
  -- Names, arguments and modifiers
  | nameChain (limit : Option Nat) (allowStar : Bool) : Production fun _ => nameChain limit allowStar
  | valueArgument : Production valueArgument
  | valueArgumentList : Production valueArgumentList
  | annotationUse : Production annotationUse
  | modifiers (cs : Array NodeId) : Production fun rec => modifiers rec cs
  -- Types
  | functionTypeRest (cs : Array NodeId) : Production fun rec => functionTypeRest rec cs
  | typeArgumentList : Production typeArgumentList
  | finishType (start : Nat) (cs : Array NodeId) (name : Option NodeId) (typeArguments : Array NodeId) :
      Production fun _ => finishType start cs name typeArguments
  | namedType (limit : Option Nat) (start : Nat) (cs : Array NodeId) :
      Production fun rec => namedType rec limit start cs
  | typeAfterAnnotations (limit : Option Nat) (start : Nat) (cs : Array NodeId) :
      Production fun rec => typeAfterAnnotations rec limit start cs
  | typeReference (limit : Option Nat) : Production fun rec => typeReference rec limit
  -- Parameters
  | writtenType (cs : Array NodeId) : Production fun rec => typeAscription rec cs
  | assignedValue (cs : Array NodeId) : Production fun rec => assignedValue rec cs
  | parameter : Production parameter
  | parameterList (cs : Array NodeId) : Production fun rec => parameterList rec cs
  | parametersIfAny (cs : Array NodeId) : Production fun rec => parametersIfAny rec cs
  | typeParameter : Production typeParameter
  | typeParametersIfAny : Production typeParametersIfAny
  -- Bodies
  | statementList (cs : Array NodeId) : Production fun rec => statementList rec cs
  | block : Production block
  | controlBody : Production controlBody
  | lambdaParameters (cs : Array NodeId) : Production fun rec => lambdaParameters rec cs
  | lambda : Production lambda
  -- Classes
  | classBody : Production classBody
  | classBodyIfAny : Production classBodyIfAny
  | supertypeArguments (cs : Array NodeId) : Production fun rec => supertypeArguments rec cs
  | delegate (cs : Array NodeId) : Production fun rec => delegate rec cs
  | supertypeEntry : Production supertypeEntry
  | supertypeList (cs : Array NodeId) : Production fun rec => supertypeList rec cs
  | primaryConstructor : Production primaryConstructor
  | primaryConstructorIfAny : Production primaryConstructorIfAny
  | classDeclaration (start : Nat) (cs : Array NodeId) (found : List Modifier) :
      Production fun rec => classDeclaration rec start cs found
  | objectName : Production fun _ => objectName
  | objectDeclaration (start : Nat) (cs : Array NodeId) (found : List Modifier) :
      Production fun rec => objectDeclaration rec start cs found
  -- Functions, properties and constructors
  | receiverIfAny (cs : Array NodeId) : Production fun rec => receiverIfAny rec cs
  | whereClauseIfAny (cs : Array NodeId) : Production fun rec => whereClauseIfAny rec cs
  | functionBody (cs : Array NodeId) : Production fun rec => functionBody rec cs
  | functionDeclaration (start : Nat) (cs : Array NodeId) (found : List Modifier) :
      Production fun rec => functionDeclaration rec start cs found
  | accessor : Production accessor
  | propertyName (cs : Array NodeId) : Production fun _ => propertyName cs
  | propertyValue (cs : Array NodeId) : Production fun rec => propertyValue rec cs
  | propertyDeclaration (start : Nat) (cs : Array NodeId) (found : List Modifier) :
      Production fun rec => propertyDeclaration rec start cs found
  | constructorCall (cs : Array NodeId) : Production fun rec => constructorCall rec cs
  | secondaryConstructor (start : Nat) (cs : Array NodeId) (found : List Modifier) :
      Production fun rec => secondaryConstructor rec start cs found
  | initializer (start : Nat) (cs : Array NodeId) : Production fun rec => initializer rec start cs
  | strayModifiers (start : Nat) (cs : Array NodeId) : Production fun _ => strayModifiers start cs
  | declaration : Production declaration
  -- Primary expressions
  | labelIfAny (cs : Array NodeId) : Production fun _ => labelIfAny cs
  | thisExpression : Production fun _ => thisExpression
  | superType (cs : Array NodeId) : Production fun rec => superType rec cs
  | superExpression : Production superExpression
  | parenthesized : Production parenthesized
  | elseBranch (cs : Array NodeId) : Production fun rec => elseBranch rec cs
  | ifExpression : Production ifExpression
  | returnExpression : Production returnExpression
  | jumpExpression : Production jumpExpression
  | callableReference (start : Nat) (receiver : Option NodeId) :
      Production fun _ => callableReference start receiver
  | primary : Production primary
  -- Operators
  | memberAccess (start : Nat) (left : NodeId) : Production fun _ => memberAccess start left
  | trailingLambda : Production trailingLambda
  | call (start : Nat) (callee : NodeId) (list : Option NodeId) (typeArguments : Array NodeId) :
      Production fun rec => call rec start callee list typeArguments
  | typeArgumentsThenCall (start : Nat) (left : NodeId) :
      Production fun rec => typeArgumentsThenCall rec start left
  | indexing (start : Nat) (left : NodeId) : Production fun rec => indexing rec start left
  | postfixOperator (start : Nat) (left : NodeId) : Production fun _ => postfixOperator start left
  | postfixed : Production postfixed
  | prefixed : Production prefixed
  | operand : Production operand
  | binary (m : Nat) : Production fun rec => binary rec m
  | expression : Production expression
  -- Statements and files
  | assignmentOrExpression : Production assignmentOrExpression
  | statement : Production statement
  | packageDirective : Production fun _ => packageDirective
  | importName (cs : Array NodeId) : Production fun _ => importName cs
  | importDirective : Production fun _ => importDirective
  | sourceFile : Production sourceFile

theorem Production.parallel {α : Type} {p : Productions → Parser α} (h : Production p)
    (rec rec' : Productions) : Parallel rec rec' (p rec) (p rec') := by
  cases h <;> infer_instance

/-- How deep the tokens are nested, and whether a brace opens a body. -/
def State.context (s : State) : Nat × Bool := (s.depth, s.noTrailingLambda)

/-- Every run ends in the context that it begins in. -/
def Restores {α : Type} (p : Parser α) : Prop := ∀ ⦃s a s'⦄, Runs p s a s' → s'.context = s.context

section
variable {α : Type} {s s' s₁ : State} {id : NodeId}

theorem State.advance_context (s : State) : s.advance.context = s.context := by
  unfold State.advance
  cases s.ahead <;> rfl

/-- One level deeper and back. -/
theorem State.context_back (h : s₁.context = { s with depth := s.depth + 1 }.context) :
    { s₁ with depth := s₁.depth - 1 }.context = s.context := by
  obtain ⟨hdepth, hbraces⟩ := Prod.mk.inj h
  exact Prod.ext (congrArg (· - 1) hdepth) hbraces

/-- Another reading of braces and the former one again. -/
theorem State.context_braces {b : Bool} (h : s₁.context = { s with noTrailingLambda := b }.context) :
    { s₁ with noTrailingLambda := s.noTrailingLambda }.context = s.context := by
  have hdepth : s₁.depth = s.depth := congrArg Prod.fst h
  exact Prod.ext hdepth rfl

theorem bumpAs_restores (k : TokenKind) : Restores (bumpAs k) := by
  intro s id s' h
  obtain ⟨-, rfl⟩ := runs_bumpAs.mp h
  exact State.advance_context _

theorem node_restores (k : NodeKind) (start : Nat) (cs : Array NodeId) (data : NodeData) :
    Restores (node k start cs data) := by
  intro s id s' h
  obtain ⟨-, rfl⟩ := runs_node.mp h
  rfl

theorem change_restores (id : NodeId) (f : Node → Node) : Restores (change id f) := by
  intro s _ s' h
  obtain rfl := runs_change.mp h
  rfl

/-- Whatever trees a run makes, it restores the context. -/
theorem Builds.context {ps : List Piece} (h : Builds s ps s') : s'.context = s.context := by
  induction h with
  | refl s => rfl
  | trans _ _ ih ih' => exact ih'.trans ih
  | bump _ h => exact bumpAs_restores _ h
  | node _ _ _ _ _ _ h ih => exact (node_restores _ _ _ _ h).trans ih
  | change _ _ _ h ih => exact (change_restores _ _ h).trans ih
  | report _ _ ih => exact ih
  | deeper _ _ ih => exact State.context_back ih
  | braces _ _ ih => exact State.context_braces ih
  | drop _ _ _ ih => exact ih

theorem nested_restores {p : Parser (Option NodeId)} (hp : Restores p) : Restores (nested p) := by
  intro s o s' h
  obtain ⟨id, -, q, -, hkept⟩ | ⟨-, s₁, hinner, rfl⟩ := runs_nested h
  · exact hkept.context
  · exact State.context_back (hp hinner)

theorem withTrailingLambda_restores {p : Parser α} (hp : Restores p) (allowed : Bool) :
    Restores (withTrailingLambda allowed p) := by
  intro s a s' h
  obtain ⟨s₁, hinner, rfl⟩ := runs_withTrailingLambda h
  exact State.context_braces (hp hinner)

end

section
variable {rec rec' : Productions} {α : Type} {p q : Parser α}

/-- A production restores the context if those do that it recurs through. -/
theorem Parallel.restores (h : Parallel rec rec' p q) (hrec : ∀ nt, Restores (rec nt)) : Restores p := by
  -- Of all the parts only the last two change the context, and each changes it back.
  induction h with
  | recur nt => exact hrec nt
  | look hlooks => exact fun _ _ _ hr => congrArg State.context (hlooks.eq_of_runs hr)
  | bind _ _ ih ih' =>
    intro s b s' hr
    obtain ⟨a, s₁, hp, hf⟩ := runs_bind.mp hr
    exact (ih' a hf).trans (ih hp)
  | bumpAs k => exact bumpAs_restores k
  | node k start cs data => exact node_restores k start cs data
  | change id f => exact change_restores id f
  | report ds =>
    intro s _ s' hr
    rw [runs_modify.mp hr]
    rfl
  | nested _ ih => exact nested_restores ih
  | withTrailingLambda allowed _ ih => exact withTrailingLambda_restores ih allowed

theorem productions_restores (n : Nat) (nt : Nonterminal) : Restores (productions n nt) := by
  induction n generalizing nt with
  | zero =>
    intro s o s' h
    rw [(runs_pure.mp h).2]
  | succ n ih =>
    have h : Parallel (productions n) (productions n) (productions (n + 1) nt) (productions (n + 1) nt) :=
      .production nt
    exact h.restores ih

end

/-- At most so deep. -/
def State.NoDeeper (limit : Nat) (s : State) : Prop := s.depth ≤ limit

/-- Productions, but others where they are begun in some states. -/
def Productions.divert (rec : Productions) (away : State → Prop) [DecidablePred away] (other : Productions) :
    Productions := fun nt => do
  if away (← get) then other nt else rec nt

/-- The productions, nested at most `n` deep, but others where they are begun in some states. If it makes no
difference which others, then none is begun there. -/
def diverted (away : State → Prop) [DecidablePred away] (other : Productions) : Nat → Productions
  | 0 => (productions 0).divert away other
  | n + 1 => Productions.divert (production (diverted away other n)) away other

section
variable {limit : Nat} {rec rec' : Productions} {α : Type} {p q : Parser α}

theorem Restores.noDeeper (hp : Restores p) : Keeps (State.NoDeeper limit) p := by
  intro s a s' hs h
  have hdepth : s'.depth = s.depth := congrArg Prod.fst (hp h)
  exact hdepth.trans_le hs

/-- Productions that run alike within a limit, and restore the context. -/
theorem Productions.alike_noDeeper (hlimit : maxDepth ≤ limit) (hrestores : ∀ nt, Restores (rec nt))
    (hsame : ∀ nt, SameFrom (State.NoDeeper limit) (rec nt) (rec' nt)) :
    rec.Alike (State.NoDeeper limit) rec' where
  same := hsame
  kept hp := (hp.restores hrestores).noDeeper
  depth _ _ _ hdepth := hdepth.trans hlimit
  braces _ _ hs := hs

theorem divert_same (other : Productions) (nt : Nonterminal) :
    SameFrom (State.NoDeeper limit) (rec nt) (rec.divert (fun t => limit < t.depth) other nt) := by
  intro s o s' hs h
  exact runs_bind_get.mpr (runs_ite.mpr (.inr ⟨Nat.not_lt_of_ge hs, h⟩))

theorem diverted_same (hlimit : maxDepth ≤ limit) (other : Productions) (n : Nat) (nt : Nonterminal) :
    SameFrom (State.NoDeeper limit) (productions n nt) (diverted (fun t => limit < t.depth) other n nt) := by
  induction n generalizing nt with
  | zero => exact divert_same other nt
  | succ n ih =>
    -- What is recurred through runs alike only within the limit, and is begun there, since all is restored.
    have halike := Productions.alike_noDeeper hlimit (productions_restores n) ih
    exact fun s o s' hs h => divert_same other nt hs ((Parallel.production nt).same halike hs h)

end

section
variable {α : Type} {p : Productions → Parser α}

theorem Production.restores (h : Production p) (n : Nat) : Restores (p (productions n)) :=
  (h.parallel (productions n) (productions n)).restores (productions_restores n)

/-- No production is begun deeper than a limit that is kept at first. -/
theorem Production.diverted_run_eq (h : Production p) (n : Nat) {limit : Nat} (hlimit : maxDepth ≤ limit)
    (other : Productions) {s : State} (hs : s.depth ≤ limit) :
    (p (diverted (fun t => limit < t.depth) other n)).run s = (p (productions n)).run s := by
  have hparallel := h.parallel (productions n) (diverted (fun t => limit < t.depth) other n)
  have halike := Productions.alike_noDeeper hlimit (productions_restores n) (diverted_same hlimit other n)
  exact ((hparallel.same halike).run_eq hs).symm

end

theorem nested_congr {p q : Parser (Option NodeId)}
    (h : ∀ s : State, 0 < s.depth → s.depth ≤ maxDepth → p.run s = q.run s) : nested p = nested q := by
  have hsame : SameFrom (fun s : State => 0 < s.depth ∧ s.depth ≤ maxDepth) p q := by
    intro s a s' hs hr
    unfold Runs at hr ⊢
    rwa [← h s hs.1 hs.2]
  have hnested : SameFrom (fun _ => True) (nested p) (nested q) :=
    .nested hsame fun _ _ _ hpos hdepth => ⟨hpos, hdepth⟩
  funext s
  exact hnested.run_eq trivial

theorem context_ofSource (fileName source : String) :
    (State.ofSource fileName source).context = (0, false) := by
  unfold State.ofSource
  split <;> rfl

/-- Every production restores the context that it is begun in, whatever it yields. In its course none is begun
deeper than the limit, unless it is so itself: others could be there without making any difference. What is
nested is begun at a depth from one up to the limit. So a parse never goes deeper than the limit, and is back at
depth zero in the end. -/
theorem context_restored (fileName source : String) :
    (∀ {α : Type} {p : Productions → Parser α}, Production p →
      ∀ (n : Nat) {s s' : State} {a : α}, Runs (p (productions n)) s a s' →
        s'.depth = s.depth ∧ s'.noTrailingLambda = s.noTrailingLambda) ∧
    (∀ {α : Type} {p : Productions → Parser α}, Production p →
      ∀ (n : Nat) (other : Productions) (s : State),
        (p (diverted (fun t => max s.depth maxDepth < t.depth) other n)).run s = (p (productions n)).run s) ∧
    (∀ p q : Parser (Option NodeId),
      (∀ s : State, 0 < s.depth → s.depth ≤ maxDepth → p.run s = q.run s) → nested p = nested q) ∧
    ∃ (root : NodeId) (stop : State),
      Runs (sourceFile (productions (nestingBound (State.ofSource fileName source).tokens.length)))
        (State.ofSource fileName source) root stop ∧
      (∀ other : Productions,
        Runs (sourceFile (diverted (fun t => maxDepth < t.depth) other
            (nestingBound (State.ofSource fileName source).tokens.length)))
          (State.ofSource fileName source) root stop) ∧
      ParsedUnit.ofSource fileName source =
        { fileName, source, forest := stop.forest, root, diagnostics := stop.diagnostics } ∧
      stop.depth = 0 ∧ stop.noTrailingLambda = false := by
  refine ⟨fun hp n s s' a hr => ?_, fun hp n other s => ?_, fun p q => nested_congr, ?_⟩
  · exact Prod.mk.inj (hp.restores n hr)
  · exact hp.diverted_run_eq n (le_max_right _ _) other (le_max_left _ _)
  generalize hstart : State.ofSource fileName source = start
  have hcontext : start.context = (0, false) := hstart ▸ context_ofSource fileName source
  -- A file is begun at depth zero, so that no limit but that on nesting matters.
  have hdepth : start.depth = 0 := congrArg Prod.fst hcontext
  have hparse := runs_self (sourceFile (productions (nestingBound start.tokens.length))) start
  have hstop := (Production.sourceFile.restores _ hparse).trans hcontext
  refine ⟨_, _, hparse, fun other => ?_, ?_, Prod.mk.inj hstop⟩
  · have hsame := Production.sourceFile.diverted_run_eq (nestingBound start.tokens.length) le_rfl other
      (hdepth.le.trans (Nat.zero_le maxDepth))
    exact congrArg Id.run hsame
  · rw [← hstart]
    rfl

end KotlinTree.Grammar
