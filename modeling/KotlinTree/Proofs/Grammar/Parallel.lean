import KotlinTree.Grammar.Unit
import KotlinTree.Proofs.Grammar.Keeps.Expression

/-!
How productions are put together. Two parsers are parallel if they are put together in the same way and differ
only by the productions that they recur through. Then whatever relates these relates the parsers, if it is kept
by the few parts of which all productions are made: looking at the state, taking a token, making and marking a
node, reporting, and running a part one level deeper or with another reading of braces. Main statement: every
production is parallel to itself, whatever two families it recurs through (`Parallel.production`).
-/

namespace KotlinTree.Grammar

set_option synthInstance.maxSize 1000

/-- Two parsers that are put together in the same way, one through each of two families of productions. -/
class inductive Parallel (rec rec' : Productions) : {α : Type} → Parser α → Parser α → Prop
  | recur (nt : Nonterminal) : Parallel rec rec' (rec nt) (rec' nt)
  | look {α : Type} {p : Parser α} (h : Looks p) : Parallel rec rec' p p
  | bind {α β : Type} {p q : Parser α} {f g : α → Parser β} (first : Parallel rec rec' p q)
      (rest : ∀ a, Parallel rec rec' (f a) (g a)) : Parallel rec rec' (p >>= f) (q >>= g)
  | bumpAs (k : TokenKind) : Parallel rec rec' (bumpAs k) (bumpAs k)
  | node (k : NodeKind) (start : Nat) (cs : Array NodeId) (data : NodeData) :
      Parallel rec rec' (node k start cs data) (node k start cs data)
  | change (id : NodeId) (f : Node → Node) : Parallel rec rec' (change id f) (change id f)
  | report (ds : State → Array Diagnostic) :
      Parallel rec rec' (modify fun s => { s with diagnostics := ds s })
        (modify fun s => { s with diagnostics := ds s })
  | nested {p q : Parser (Option NodeId)} (inner : Parallel rec rec' p q) :
      Parallel rec rec' (nested p) (nested q)
  | withTrailingLambda {α : Type} {p q : Parser α} (allowed : Bool) (inner : Parallel rec rec' p q) :
      Parallel rec rec' (withTrailingLambda allowed p) (withTrailingLambda allowed q)

namespace Parallel

attribute [instance] recur bumpAs node change report

variable {rec rec' : Productions} {α β σ : Type} {p q : Parser α} {f g : α → Parser β}

instance ofLooks [h : Looks p] : Parallel rec rec' p p := .look h

instance ofBind [hp : Parallel rec rec' p q] [hf : ∀ a, Parallel rec rec' (f a) (g a)] :
    Parallel rec rec' (p >>= f) (q >>= g) := .bind hp hf

instance ofNested {p q : Parser (Option NodeId)} [h : Parallel rec rec' p q] :
    Parallel rec rec' (Grammar.nested p) (Grammar.nested q) := .nested h

instance ofWithTrailingLambda {allowed : Bool} [h : Parallel rec rec' p q] :
    Parallel rec rec' (Grammar.withTrailingLambda allowed p) (Grammar.withTrailingLambda allowed q) :=
  .withTrailingLambda allowed h

/-- The same, where it depends on the first result how the second part is put together. -/
theorem step [Parallel rec rec' p q] (hf : ∀ a, Parallel rec rec' (f a) (g a)) :
    Parallel rec rec' (p >>= f) (q >>= g) := ofBind

instance ite {c : Prop} [Decidable c] {p' q' : Parser α} [hp : Parallel rec rec' p p']
    [hq : Parallel rec rec' q q'] : Parallel rec rec' (if c then p else q) (if c then p' else q') := by
  split
  · exact hp
  · exact hq

theorem branch {c : Prop} [Decidable c] {p' q' : Parser α} (hp : Parallel rec rec' p p')
    (hq : Parallel rec rec' q q') : Parallel rec rec' (if c then p else q) (if c then p' else q') := ite

instance map (h : α → β) [Parallel rec rec' p q] : Parallel rec rec' (h <$> p) (h <$> q) := by
  simp only [map_eq_pure_bind]
  infer_instance

instance forM {f : α → Parser PUnit} [h : ∀ a, Parallel rec rec' (f a) (f a)] (o : Option α) :
    Parallel rec rec' (o.forM f) (o.forM f) := by
  cases o with
  | none => exact inferInstanceAs (Parallel rec rec' (pure ()) (pure ()))
  | some a => exact h a

theorem repeatUpTo {step step' : σ → Parser (Step σ)} (h : ∀ x, Parallel rec rec' (step x) (step' x))
    (n : Nat) (x : σ) : Parallel rec rec' (repeatUpTo step n x) (repeatUpTo step' n x) := by
  induction n generalizing x with
  | zero => exact inferInstanceAs (Parallel rec rec' (pure x) (pure x))
  | succ n ih =>
    refine .bind (h x) fun r => ?_
    cases r with
    | more y => exact ih y
    | done y => exact inferInstanceAs (Parallel rec rec' (pure y) (pure y))

instance repeating {step step' : σ → Parser (Step σ)} [h : ∀ x, Parallel rec rec' (step x) (step' x)]
    (x : σ) : Parallel rec rec' (repeating step x) (repeating step' x) :=
  Parallel.step fun _ => repeatUpTo h _ x

instance bump : Parallel rec rec' bump bump := ofBind

instance bumpName : Parallel rec rec' bumpName bumpName := by
  unfold Grammar.bumpName
  infer_instance

instance eat (k : TokenKind) : Parallel rec rec' (eat k) (eat k) := by
  unfold Grammar.eat
  infer_instance

instance recovered (id : NodeId) : Parallel rec rec' (recovered id) (recovered id) := by
  unfold Grammar.recovered
  infer_instance

instance unknownStep (x : Array NodeId × Nat) : Parallel rec rec' (unknownStep x) (unknownStep x) := by
  unfold Grammar.unknownStep
  infer_instance

instance unknown : Parallel rec rec' unknown unknown := by
  unfold Grammar.unknown
  infer_instance

instance unknownToken : Parallel rec rec' unknownToken unknownToken := by
  unfold Grammar.unknownToken
  infer_instance

instance nameChainStep (limit : Option Nat) (allowStar : Bool) (start : Nat)
    (x : NodeId × Nat × Array NodeId) :
    Parallel rec rec' (nameChainStep limit allowStar start x) (nameChainStep limit allowStar start x) := by
  unfold Grammar.nameChainStep
  infer_instance

instance nameChain (limit : Option Nat) (allowStar : Bool) :
    Parallel rec rec' (nameChain limit allowStar) (nameChain limit allowStar) := by
  refine step fun start => step fun first => ?_
  cases first <;> infer_instance

instance nullabilityStep (x : Array NodeId × Bool) :
    Parallel rec rec' (nullabilityStep x) (nullabilityStep x) := by
  unfold Grammar.nullabilityStep
  infer_instance

instance finishType (start : Nat) (cs : Array NodeId) (name : Option NodeId)
    (typeArguments : Array NodeId) :
    Parallel rec rec' (finishType start cs name typeArguments) (finishType start cs name typeArguments) := by
  unfold Grammar.finishType
  infer_instance

instance varianceStep (cs : Array NodeId) : Parallel rec rec' (varianceStep cs) (varianceStep cs) := by
  unfold Grammar.varianceStep
  infer_instance

instance valueArgument : Parallel rec rec' (valueArgument rec) (valueArgument rec') := by
  unfold Grammar.valueArgument
  infer_instance

instance valueArgumentStep (x : Array NodeId × Array NodeId) :
    Parallel rec rec' (valueArgumentStep rec x) (valueArgumentStep rec' x) := by
  refine step fun k => ?_
  split <;> try infer_instance
  refine step fun argument => ?_
  cases argument <;> infer_instance

instance valueArgumentList : Parallel rec rec' (valueArgumentList rec) (valueArgumentList rec') := by
  unfold Grammar.valueArgumentList
  infer_instance

instance annotationUse : Parallel rec rec' (annotationUse rec) (annotationUse rec') := by
  unfold Grammar.annotationUse
  infer_instance

instance modifierStep (x : Array NodeId × List Modifier) :
    Parallel rec rec' (modifierStep rec x) (modifierStep rec' x) := by
  unfold Grammar.modifierStep
  infer_instance

instance modifiers (cs : Array NodeId) : Parallel rec rec' (modifiers rec cs) (modifiers rec' cs) := by
  unfold Grammar.modifiers
  infer_instance

instance functionTypeStep (cs : Array NodeId) :
    Parallel rec rec' (functionTypeStep rec cs) (functionTypeStep rec' cs) := by
  refine step fun k => ?_
  split <;> try infer_instance
  refine step fun next => ?_
  extract_lets afterName afterName'
  have hafter (cs : Array NodeId) : Parallel rec rec' (afterName cs) (afterName' cs) := by
    refine step fun parameter => ?_
    cases parameter <;> infer_instance
  infer_instance

instance functionTypeRest (cs : Array NodeId) :
    Parallel rec rec' (functionTypeRest rec cs) (functionTypeRest rec' cs) := by
  unfold Grammar.functionTypeRest
  infer_instance

instance typeArgumentStep (x : Array NodeId × Array NodeId) :
    Parallel rec rec' (typeArgumentStep rec x) (typeArgumentStep rec' x) := by
  refine step fun k => ?_
  split <;> try infer_instance
  refine step fun isOut => step fun next => ?_
  extract_lets afterVariance afterVariance'
  have hafter (cs : Array NodeId) : Parallel rec rec' (afterVariance cs) (afterVariance' cs) := by
    refine step fun argument => ?_
    cases argument <;> infer_instance
  infer_instance

instance typeArgumentList : Parallel rec rec' (typeArgumentList rec) (typeArgumentList rec') := by
  unfold Grammar.typeArgumentList
  infer_instance

instance namedType (limit : Option Nat) (start : Nat) (cs : Array NodeId) :
    Parallel rec rec' (namedType rec limit start cs) (namedType rec' limit start cs) := by
  unfold Grammar.namedType
  infer_instance

instance typeAfterAnnotations (limit : Option Nat) (start : Nat) (cs : Array NodeId) :
    Parallel rec rec' (typeAfterAnnotations rec limit start cs)
      (typeAfterAnnotations rec' limit start cs) := by
  unfold Grammar.typeAfterAnnotations
  infer_instance

instance typeReference (limit : Option Nat) :
    Parallel rec rec' (typeReference rec limit) (typeReference rec' limit) := by
  unfold Grammar.typeReference
  infer_instance

instance writtenType (cs : Array NodeId) :
    Parallel rec rec' (typeAscription rec cs) (typeAscription rec' cs) := by
  unfold Grammar.typeAscription
  infer_instance

instance assignedValue (cs : Array NodeId) :
    Parallel rec rec' (assignedValue rec cs) (assignedValue rec' cs) := by
  unfold Grammar.assignedValue
  infer_instance

instance parameter : Parallel rec rec' (parameter rec) (parameter rec') := by
  unfold Grammar.parameter
  infer_instance

instance parameterStep (x : Array NodeId × Array NodeId) :
    Parallel rec rec' (parameterStep rec x) (parameterStep rec' x) := by
  refine step fun k => ?_
  split <;> try infer_instance
  refine step fun parameter => ?_
  cases parameter <;> infer_instance

instance parameterList (cs : Array NodeId) :
    Parallel rec rec' (parameterList rec cs) (parameterList rec' cs) := by
  unfold Grammar.parameterList
  infer_instance

instance parametersIfAny (cs : Array NodeId) :
    Parallel rec rec' (parametersIfAny rec cs) (parametersIfAny rec' cs) := by
  unfold Grammar.parametersIfAny
  infer_instance

instance typeParameter : Parallel rec rec' (typeParameter rec) (typeParameter rec') := by
  refine step fun start => step fun cs => step fun name => ?_
  cases name <;> infer_instance

instance typeParameterStep (cs : Array NodeId) :
    Parallel rec rec' (typeParameterStep rec cs) (typeParameterStep rec' cs) := by
  refine step fun k => ?_
  split <;> try infer_instance
  refine step fun parameter => ?_
  cases parameter <;> infer_instance

instance typeParametersIfAny : Parallel rec rec' (typeParametersIfAny rec) (typeParametersIfAny rec') := by
  unfold Grammar.typeParametersIfAny
  infer_instance

instance statementStep (x : Array NodeId × Array NodeId) :
    Parallel rec rec' (statementStep rec x) (statementStep rec' x) := by
  refine step fun k => ?_
  split <;> try infer_instance
  refine step fun statement => ?_
  cases statement <;> infer_instance

instance statementList (cs : Array NodeId) :
    Parallel rec rec' (statementList rec cs) (statementList rec' cs) := by
  unfold Grammar.statementList
  infer_instance

instance block : Parallel rec rec' (block rec) (block rec') := by
  unfold Grammar.block
  infer_instance

instance controlBody : Parallel rec rec' (controlBody rec) (controlBody rec') := by
  unfold Grammar.controlBody
  infer_instance

instance lambdaParameterStep (x : Array NodeId × Array NodeId) :
    Parallel rec rec' (lambdaParameterStep rec x) (lambdaParameterStep rec' x) := by
  refine step fun k => ?_
  split <;> try infer_instance
  refine step fun parameter => ?_
  cases parameter <;> infer_instance

instance lambdaParameters (cs : Array NodeId) :
    Parallel rec rec' (lambdaParameters rec cs) (lambdaParameters rec' cs) := by
  unfold Grammar.lambdaParameters
  infer_instance

instance lambda : Parallel rec rec' (lambda rec) (lambda rec') := by
  unfold Grammar.lambda
  infer_instance

instance memberStep (x : Array NodeId × Array NodeId) :
    Parallel rec rec' (memberStep rec x) (memberStep rec' x) := by
  refine step fun k => ?_
  split <;> try infer_instance
  refine step fun member => ?_
  cases member <;> infer_instance

instance classBody : Parallel rec rec' (classBody rec) (classBody rec') := by
  unfold Grammar.classBody
  infer_instance

instance classBodyIfAny : Parallel rec rec' (classBodyIfAny rec) (classBodyIfAny rec') := by
  unfold Grammar.classBodyIfAny
  infer_instance

instance supertypeArguments (cs : Array NodeId) :
    Parallel rec rec' (supertypeArguments rec cs) (supertypeArguments rec' cs) := by
  unfold Grammar.supertypeArguments
  infer_instance

instance delegate (cs : Array NodeId) : Parallel rec rec' (delegate rec cs) (delegate rec' cs) := by
  unfold Grammar.delegate
  infer_instance

instance supertypeEntry : Parallel rec rec' (supertypeEntry rec) (supertypeEntry rec') := by
  refine step fun start => step fun type => ?_
  cases type <;> infer_instance

instance supertypeStep (x : Array NodeId × Array NodeId) :
    Parallel rec rec' (supertypeStep rec x) (supertypeStep rec' x) := by
  refine step fun entry => ?_
  cases entry with
  | none => infer_instance
  | some entry =>
    refine step fun comma => ?_
    cases comma <;> infer_instance

instance supertypeList (cs : Array NodeId) :
    Parallel rec rec' (supertypeList rec cs) (supertypeList rec' cs) := by
  unfold Grammar.supertypeList
  infer_instance

instance primaryConstructor : Parallel rec rec' (primaryConstructor rec) (primaryConstructor rec') := by
  unfold Grammar.primaryConstructor
  infer_instance

instance primaryConstructorIfAny :
    Parallel rec rec' (primaryConstructorIfAny rec) (primaryConstructorIfAny rec') := by
  unfold Grammar.primaryConstructorIfAny
  infer_instance

instance objectName : Parallel rec rec' objectName objectName := by
  unfold Grammar.objectName
  infer_instance

instance classDeclaration (start : Nat) (cs : Array NodeId) (found : List Modifier) :
    Parallel rec rec' (classDeclaration rec start cs found) (classDeclaration rec' start cs found) := by
  unfold Grammar.classDeclaration
  infer_instance

instance objectDeclaration (start : Nat) (cs : Array NodeId) (found : List Modifier) :
    Parallel rec rec' (objectDeclaration rec start cs found) (objectDeclaration rec' start cs found) := by
  unfold Grammar.objectDeclaration
  infer_instance

instance receiverIfAny (cs : Array NodeId) :
    Parallel rec rec' (receiverIfAny rec cs) (receiverIfAny rec' cs) := by
  unfold Grammar.receiverIfAny
  infer_instance

instance constraintStep (cs : Array NodeId) :
    Parallel rec rec' (constraintStep rec cs) (constraintStep rec' cs) := by
  refine step fun name => step fun typed => branch inferInstance (step fun comma => ?_)
  cases comma <;> infer_instance

instance whereClauseIfAny (cs : Array NodeId) :
    Parallel rec rec' (whereClauseIfAny rec cs) (whereClauseIfAny rec' cs) := by
  unfold Grammar.whereClauseIfAny
  infer_instance

instance functionBody (cs : Array NodeId) :
    Parallel rec rec' (functionBody rec cs) (functionBody rec' cs) := by
  unfold Grammar.functionBody
  infer_instance

instance accessor : Parallel rec rec' (accessor rec) (accessor rec') := by
  unfold Grammar.accessor
  infer_instance

instance accessorStep (cs : Array NodeId) :
    Parallel rec rec' (accessorStep rec cs) (accessorStep rec' cs) := by
  unfold Grammar.accessorStep
  infer_instance

instance propertyName (cs : Array NodeId) : Parallel rec rec' (propertyName cs) (propertyName cs) := by
  unfold Grammar.propertyName
  infer_instance

instance propertyValue (cs : Array NodeId) :
    Parallel rec rec' (propertyValue rec cs) (propertyValue rec' cs) := by
  unfold Grammar.propertyValue
  infer_instance

instance constructorCall (cs : Array NodeId) :
    Parallel rec rec' (constructorCall rec cs) (constructorCall rec' cs) := by
  unfold Grammar.constructorCall
  infer_instance

instance functionDeclaration (start : Nat) (cs : Array NodeId) (found : List Modifier) :
    Parallel rec rec' (functionDeclaration rec start cs found)
      (functionDeclaration rec' start cs found) := by
  unfold Grammar.functionDeclaration
  infer_instance

instance propertyDeclaration (start : Nat) (cs : Array NodeId) (found : List Modifier) :
    Parallel rec rec' (propertyDeclaration rec start cs found)
      (propertyDeclaration rec' start cs found) := by
  unfold Grammar.propertyDeclaration
  infer_instance

instance secondaryConstructor (start : Nat) (cs : Array NodeId) (found : List Modifier) :
    Parallel rec rec' (secondaryConstructor rec start cs found)
      (secondaryConstructor rec' start cs found) := by
  unfold Grammar.secondaryConstructor
  infer_instance

instance initializer (start : Nat) (cs : Array NodeId) :
    Parallel rec rec' (initializer rec start cs) (initializer rec' start cs) := by
  unfold Grammar.initializer
  infer_instance

instance strayModifiers (start : Nat) (cs : Array NodeId) :
    Parallel rec rec' (strayModifiers start cs) (strayModifiers start cs) := by
  unfold Grammar.strayModifiers
  infer_instance

instance declaration : Parallel rec rec' (declaration rec) (declaration rec') := by
  refine step fun start => step fun modified => step fun k => ?_
  split <;> infer_instance

instance labelIfAny (cs : Array NodeId) : Parallel rec rec' (labelIfAny cs) (labelIfAny cs) := by
  unfold Grammar.labelIfAny
  infer_instance

instance thisExpression : Parallel rec rec' thisExpression thisExpression := by
  unfold Grammar.thisExpression
  infer_instance

instance superType (cs : Array NodeId) : Parallel rec rec' (superType rec cs) (superType rec' cs) := by
  unfold Grammar.superType
  infer_instance

instance superExpression : Parallel rec rec' (superExpression rec) (superExpression rec') := by
  unfold Grammar.superExpression
  infer_instance

instance parenthesized : Parallel rec rec' (parenthesized rec) (parenthesized rec') := by
  unfold Grammar.parenthesized
  infer_instance

instance elseBranch (cs : Array NodeId) : Parallel rec rec' (elseBranch rec cs) (elseBranch rec' cs) := by
  unfold Grammar.elseBranch
  infer_instance

instance ifExpression : Parallel rec rec' (ifExpression rec) (ifExpression rec') := by
  unfold Grammar.ifExpression
  infer_instance

instance returnExpression : Parallel rec rec' (returnExpression rec) (returnExpression rec') := by
  unfold Grammar.returnExpression
  infer_instance

instance jumpExpression : Parallel rec rec' (jumpExpression rec) (jumpExpression rec') := by
  unfold Grammar.jumpExpression
  infer_instance

instance callableReference (start : Nat) (receiver : Option NodeId) :
    Parallel rec rec' (callableReference start receiver) (callableReference start receiver) := by
  unfold Grammar.callableReference
  infer_instance

instance primary : Parallel rec rec' (primary rec) (primary rec') := by
  refine step fun start => step fun k => ?_
  split <;> infer_instance

instance memberAccess (start : Nat) (left : NodeId) :
    Parallel rec rec' (memberAccess start left) (memberAccess start left) := by
  unfold Grammar.memberAccess
  infer_instance

instance trailingLambda : Parallel rec rec' (trailingLambda rec) (trailingLambda rec') := by
  unfold Grammar.trailingLambda
  infer_instance

instance call (start : Nat) (callee : NodeId) (list : Option NodeId) (typeArguments : Array NodeId) :
    Parallel rec rec' (call rec start callee list typeArguments) (call rec' start callee list typeArguments) := by
  unfold Grammar.call
  infer_instance

instance typeArgumentsThenCall (start : Nat) (left : NodeId) :
    Parallel rec rec' (typeArgumentsThenCall rec start left) (typeArgumentsThenCall rec' start left) := by
  unfold Grammar.typeArgumentsThenCall
  infer_instance

instance indexStep (cs : Array NodeId) : Parallel rec rec' (indexStep rec cs) (indexStep rec' cs) := by
  refine step fun k => ?_
  split <;> try infer_instance
  refine step fun index => ?_
  cases index <;> infer_instance

instance indexing (start : Nat) (left : NodeId) :
    Parallel rec rec' (indexing rec start left) (indexing rec' start left) := by
  unfold Grammar.indexing
  infer_instance

instance postfixOperator (start : Nat) (left : NodeId) :
    Parallel rec rec' (postfixOperator start left) (postfixOperator start left) := by
  unfold Grammar.postfixOperator
  infer_instance

instance postfixStep (start : Nat) (left : NodeId) :
    Parallel rec rec' (postfixStep rec start left) (postfixStep rec' start left) := by
  refine step fun startsLine => step fun k => ?_
  split <;> infer_instance

instance postfixed : Parallel rec rec' (postfixed rec) (postfixed rec') := by
  refine step fun start => step fun first => ?_
  cases first <;> infer_instance

instance prefixed : Parallel rec rec' (prefixed rec) (prefixed rec') := by
  unfold Grammar.prefixed
  infer_instance

instance castStep (start : Nat) (left : NodeId) :
    Parallel rec rec' (castStep rec start left) (castStep rec' start left) := by
  unfold Grammar.castStep
  infer_instance

instance operand : Parallel rec rec' (operand rec) (operand rec') := by
  refine step fun start => step fun first => ?_
  cases first <;> infer_instance

instance binaryStep (m start : Nat) (left : NodeId) :
    Parallel rec rec' (binaryStep rec m start left) (binaryStep rec' m start left) := by
  refine step fun operator => ?_
  split <;> infer_instance

instance binary (m : Nat) : Parallel rec rec' (binary rec m) (binary rec' m) := by
  refine step fun start => step fun first => ?_
  cases first <;> infer_instance

instance expression : Parallel rec rec' (expression rec) (expression rec') := by
  unfold Grammar.expression
  infer_instance

instance assignmentOrExpression :
    Parallel rec rec' (assignmentOrExpression rec) (assignmentOrExpression rec') := by
  refine step fun start => step fun target => ?_
  cases target <;> infer_instance

instance statement : Parallel rec rec' (statement rec) (statement rec') := by
  unfold Grammar.statement
  infer_instance

/-- The productions that recur through others. -/
theorem production (nt : Nonterminal) : Parallel rec rec' (production rec nt) (production rec' nt) := by
  cases nt with
  | expression => exact expression
  | binary m => exact binary m
  | prefixed => exact prefixed
  | typeReference limit => exact typeReference limit
  | statement => exact statement
  | declaration => exact declaration

instance packageDirective : Parallel rec rec' packageDirective packageDirective := by
  unfold Grammar.packageDirective
  infer_instance

instance importName (cs : Array NodeId) : Parallel rec rec' (importName cs) (importName cs) := by
  unfold Grammar.importName
  infer_instance

instance importDirective : Parallel rec rec' importDirective importDirective := by
  unfold Grammar.importDirective
  infer_instance

instance fileStep (parts : FileParts) : Parallel rec rec' (fileStep rec parts) (fileStep rec' parts) := by
  refine step fun k => ?_
  split <;> try infer_instance
  refine step fun declaration => ?_
  cases declaration <;> infer_instance

instance sourceFile : Parallel rec rec' (sourceFile rec) (sourceFile rec') := by
  unfold Grammar.sourceFile
  infer_instance

end Parallel

/-- Productions that run alike where a property holds, which lasts through what is put together from them. -/
class Productions.Alike (I : State → Prop) (rec rec' : Productions) : Prop where
  same : ∀ nt, SameFrom I (rec nt) (rec' nt)
  kept : ∀ {α : Type} {p q : Parser α}, Parallel rec rec' p q → Keeps I p
  depth : ∀ s depth, I s → depth ≤ maxDepth → I { s with depth }
  braces : ∀ s noTrailingLambda, I s → I { s with noTrailingLambda }

section
variable {I : State → Prop} {α : Type} {p q : Parser α}

/-- What is put together in the same way from productions that run alike runs alike. -/
theorem Parallel.same {rec rec' : Productions} (h : Parallel rec rec' p q) (hrec : rec.Alike I rec') :
    SameFrom I p q := by
  -- A sequence needs more than that its parts run alike: the first has to keep the property for the second.
  induction h with
  | recur nt => exact hrec.same nt
  | look _ => exact .refl _
  | bind hfirst _ ih ih' => exact .bind ih (hrec.kept hfirst) ih'
  | bumpAs k => exact .refl _
  | node k start cs data => exact .refl _
  | change id f => exact .refl _
  | report ds => exact .refl _
  | nested _ ih => exact .nested ih fun s depth hs _ hdepth => hrec.depth s depth hs hdepth
  | withTrailingLambda allowed _ ih => exact .withTrailingLambda ih hrec.braces allowed

theorem SameFrom.of_parallel (rec rec' : Productions) [hrec : rec.Alike I rec'] [h : Parallel rec rec' p q] :
    SameFrom I p q := h.same hrec

end

end KotlinTree.Grammar
