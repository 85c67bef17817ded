import KotlinTree.Proofs.Grammar.Indifferent
import KotlinTree.Proofs.Grammar.Parameter
import KotlinTree.Proofs.Grammar.Unit

/-!
Names, arguments, modifiers, types, parameters and declarations, to which the reading of braces makes
no difference.
-/

namespace KotlinTree.Grammar

set_option synthInstance.maxSize 1000

namespace Indifferent

instance nameChainStep (limit : Option Nat) (allowStar : Bool) (start : Nat)
    (x : NodeId × Nat × Array NodeId) : Indifferent (nameChainStep limit allowStar start x) := by
  unfold Grammar.nameChainStep
  infer_instance

instance nameChain (limit : Option Nat) (allowStar : Bool) : Indifferent (nameChain limit allowStar) := by
  refine step fun start => step fun first => ?_
  cases first <;> infer_instance

instance nullabilityStep (x : Array NodeId × Bool) : Indifferent (nullabilityStep x) := by
  unfold Grammar.nullabilityStep
  infer_instance

instance finishType (start : Nat) (cs : Array NodeId) (name : Option NodeId)
    (typeArguments : Array NodeId) : Indifferent (finishType start cs name typeArguments) := by
  unfold Grammar.finishType
  infer_instance

instance varianceStep (cs : Array NodeId) : Indifferent (varianceStep cs) := by
  unfold Grammar.varianceStep
  infer_instance

variable {rec : Productions} [rec.Indifferent]

instance valueArgument : Indifferent (valueArgument rec) := by
  unfold Grammar.valueArgument
  infer_instance

instance valueArgumentStep (x : Array NodeId × Array NodeId) : Indifferent (valueArgumentStep rec x) := by
  refine step fun k => ?_
  split <;> try infer_instance
  refine step fun argument => ?_
  cases argument <;> infer_instance

end Indifferent

/-- Inside parentheses, braces are read in one way. -/
theorem Unmoved.valueArgumentList (rec : Productions) : Unmoved (valueArgumentList rec) := by
  refine look.bind fun start => bump.bind fun opened => (withTrailingLambda _ _).bind fun listed => ?_
  exact (eat _).bind fun closed => (node _ _ _ _).bind fun list => .pure _

namespace Indifferent

variable {rec : Productions} [hr : rec.Indifferent]

instance valueArgumentList : Indifferent (valueArgumentList rec) := by
  refine (Unmoved.valueArgumentList rec).indifferent fun s x s' h => ?_
  obtain ⟨opened, s₁, ho, h⟩ := runs_bind.mp (runs_bind_place.mp h)
  obtain ⟨⟨children, arguments⟩, s₂, hl, h⟩ := runs_bind.mp h
  obtain ⟨closed, s₃, hc, h⟩ := runs_bind.mp h
  obtain ⟨list, s₄, hn, h⟩ := runs_bind.mp h
  obtain ⟨rfl, rfl⟩ := runs_pure.mp h
  obtain ⟨hopened, hnew⟩ := onward_bump ho
  have hinner := (hopened.trans (Indifferent.onward hl)).trans (Indifferent.onward hc)
  obtain ⟨t, hl, -⟩ := runs_withTrailingLambda hl
  have hlisted := runs_repeating_collects (fun _ _ _ _ => valueArgumentStep_collects hr.sound) hl
  exact hinner.node (fun _ => ⟨opened, mem_first_add (hlisted.appends.first rfl) closed, hnew⟩) hn

instance annotationUse : Indifferent (annotationUse rec) := by
  unfold Grammar.annotationUse
  infer_instance

instance modifierStep (x : Array NodeId × List Modifier) : Indifferent (modifierStep rec x) := by
  refine step fun atSign => branch inferInstance (step fun atModifier => branch ?_ inferInstance)
  exact get (fun s => inferInstance) fun _ => rfl

instance modifiers (cs : Array NodeId) : Indifferent (modifiers rec cs) := by
  unfold Grammar.modifiers
  infer_instance

instance functionTypeStep (cs : Array NodeId) : Indifferent (functionTypeStep rec cs) := by
  refine step fun k => ?_
  split <;> try infer_instance
  refine step fun next => ?_
  extract_lets afterName
  have hafter (cs : Array NodeId) : Indifferent (afterName cs) := by
    refine step fun parameter => ?_
    cases parameter <;> infer_instance
  infer_instance

instance functionTypeRest (cs : Array NodeId) : Indifferent (functionTypeRest rec cs) := by
  unfold Grammar.functionTypeRest
  infer_instance

instance typeArgumentStep (x : Array NodeId × Array NodeId) : Indifferent (typeArgumentStep rec x) := by
  refine step fun k => ?_
  split <;> try infer_instance
  refine step fun isOut => step fun next => ?_
  extract_lets afterVariance
  have hafter (cs : Array NodeId) : Indifferent (afterVariance cs) := by
    refine step fun argument => ?_
    cases argument <;> infer_instance
  infer_instance

instance typeArgumentList : Indifferent (typeArgumentList rec) := by
  unfold Grammar.typeArgumentList
  infer_instance

instance namedType (limit : Option Nat) (start : Nat) (cs : Array NodeId) :
    Indifferent (namedType rec limit start cs) := by
  unfold Grammar.namedType
  infer_instance

instance typeAfterAnnotations (limit : Option Nat) (start : Nat) (cs : Array NodeId) :
    Indifferent (typeAfterAnnotations rec limit start cs) := by
  unfold Grammar.typeAfterAnnotations
  infer_instance

instance typeReference (limit : Option Nat) : Indifferent (typeReference rec limit) := by
  unfold Grammar.typeReference
  infer_instance

instance typeAscription (cs : Array NodeId) : Indifferent (Grammar.typeAscription rec cs) := by
  unfold Grammar.typeAscription
  infer_instance

instance assignedValue (cs : Array NodeId) : Indifferent (assignedValue rec cs) := by
  unfold Grammar.assignedValue
  infer_instance

instance parameter : Indifferent (parameter rec) := by
  unfold Grammar.parameter
  infer_instance

instance parameterStep (x : Array NodeId × Array NodeId) : Indifferent (parameterStep rec x) := by
  refine step fun k => ?_
  split <;> try infer_instance
  refine step fun parameter => ?_
  cases parameter <;> infer_instance

instance parameterList (cs : Array NodeId) : Indifferent (parameterList rec cs) := by
  unfold Grammar.parameterList
  infer_instance

instance parametersIfAny (cs : Array NodeId) : Indifferent (parametersIfAny rec cs) := by
  unfold Grammar.parametersIfAny
  infer_instance

instance typeParameter : Indifferent (typeParameter rec) := by
  refine step fun start => step fun cs => step fun name => ?_
  cases name <;> infer_instance

instance typeParameterStep (cs : Array NodeId) : Indifferent (typeParameterStep rec cs) := by
  refine step fun k => ?_
  split <;> try infer_instance
  refine step fun parameter => ?_
  cases parameter <;> infer_instance

instance typeParametersIfAny : Indifferent (typeParametersIfAny rec) := by
  unfold Grammar.typeParametersIfAny
  infer_instance

end Indifferent

/-- Inside braces of statements, braces are read in one way. -/
theorem Unmoved.block (rec : Productions) : Unmoved (block rec) := by
  refine look.bind fun start => bump.bind fun opened => (withTrailingLambda _ _).bind fun body => ?_
  exact node _ _ _ _

/-- Inside a lambda, braces are read in one way. -/
theorem Unmoved.lambda (rec : Productions) : Unmoved (lambda rec) := by
  refine look.bind fun start => bump.bind fun opened => (withTrailingLambda _ _).bind fun body => ?_
  exact node _ _ _ _

namespace Indifferent

variable {rec : Productions} [hr : rec.Indifferent]

instance statementStep (x : Array NodeId × Array NodeId) : Indifferent (statementStep rec x) := by
  refine step fun k => ?_
  split <;> try infer_instance
  refine step fun statement => ?_
  cases statement <;> infer_instance

instance statementList (cs : Array NodeId) : Indifferent (statementList rec cs) := by
  unfold Grammar.statementList
  infer_instance

instance block : Indifferent (block rec) := by
  refine (Unmoved.block rec).indifferent fun s id s' h => ?_
  obtain ⟨opened, s₁, ho, h⟩ := runs_bind.mp (runs_bind_place.mp h)
  obtain ⟨⟨children, statements⟩, s₂, hw, h⟩ := runs_bind.mp h
  obtain ⟨hopened, hnew⟩ := onward_bump ho
  refine (hopened.trans (Indifferent.onward hw)).node (fun _ => ⟨opened, ?_, hnew⟩) h
  obtain ⟨t, hin, -⟩ := runs_withTrailingLambda hw
  obtain ⟨⟨inner, listed⟩, t₁, hl, hin⟩ := runs_bind.mp hin
  obtain ⟨closed, t₂, hc, hin⟩ := runs_bind.mp hin
  obtain ⟨he, -⟩ := runs_pure.mp hin
  cases he
  exact mem_first_add ((statementList_adds hr.sound hl).appends.first rfl) closed

instance controlBody : Indifferent (controlBody rec) := by
  unfold Grammar.controlBody
  infer_instance

instance lambdaParameterStep (x : Array NodeId × Array NodeId) :
    Indifferent (lambdaParameterStep rec x) := by
  refine step fun k => ?_
  split <;> try infer_instance
  refine step fun parameter => ?_
  cases parameter <;> infer_instance

instance lambdaParameters (cs : Array NodeId) : Indifferent (lambdaParameters rec cs) :=
  get (fun _ => inferInstance) fun _ => rfl

instance lambda : Indifferent (lambda rec) := by
  refine (Unmoved.lambda rec).indifferent fun s id s' h => ?_
  obtain ⟨opened, s₁, ho, h⟩ := runs_bind.mp (runs_bind_place.mp h)
  obtain ⟨⟨children, parameters, statements⟩, s₂, hw, h⟩ := runs_bind.mp h
  obtain ⟨hopened, hnew⟩ := onward_bump ho
  refine (hopened.trans (Indifferent.onward hw)).node (fun _ => ⟨opened, ?_, hnew⟩) h
  obtain ⟨t, hin, -⟩ := runs_withTrailingLambda hw
  obtain ⟨⟨front, parameters'⟩, t₁, hp, hin⟩ := runs_bind.mp hin
  obtain ⟨⟨inner, listed⟩, t₂, hl, hin⟩ := runs_bind.mp hin
  obtain ⟨closed, t₃, hc, hin⟩ := runs_bind.mp hin
  obtain ⟨he, -⟩ := runs_pure.mp hin
  cases he
  have hinner := (lambdaParameters_adds hr.sound hp).trans (statementList_adds hr.sound hl)
  exact mem_first_add (hinner.appends.first rfl) closed

instance memberStep (x : Array NodeId × Array NodeId) : Indifferent (memberStep rec x) := by
  refine step fun k => ?_
  split <;> try infer_instance
  refine step fun member => ?_
  cases member <;> infer_instance

instance classBody : Indifferent (classBody rec) := by
  unfold Grammar.classBody
  infer_instance

instance classBodyIfAny : Indifferent (classBodyIfAny rec) := by
  unfold Grammar.classBodyIfAny
  infer_instance

instance supertypeArguments (cs : Array NodeId) : Indifferent (supertypeArguments rec cs) := by
  unfold Grammar.supertypeArguments
  infer_instance

instance delegate (cs : Array NodeId) : Indifferent (delegate rec cs) := by
  unfold Grammar.delegate
  infer_instance

instance supertypeEntry : Indifferent (supertypeEntry rec) := by
  refine step fun start => step fun type => ?_
  cases type <;> infer_instance

instance supertypeStep (x : Array NodeId × Array NodeId) : Indifferent (supertypeStep rec x) := by
  refine step fun entry => ?_
  cases entry with
  | none => infer_instance
  | some entry =>
    refine step fun comma => ?_
    cases comma <;> infer_instance

instance supertypeList (cs : Array NodeId) : Indifferent (supertypeList rec cs) := by
  unfold Grammar.supertypeList
  infer_instance

instance primaryConstructor : Indifferent (primaryConstructor rec) := by
  unfold Grammar.primaryConstructor
  infer_instance

instance primaryConstructorIfAny : Indifferent (primaryConstructorIfAny rec) := by
  unfold Grammar.primaryConstructorIfAny
  infer_instance

instance classDeclaration (start : Nat) (cs : Array NodeId) (found : List Modifier) :
    Indifferent (classDeclaration rec start cs found) := by
  unfold Grammar.classDeclaration
  infer_instance

instance objectName : Indifferent objectName := by
  unfold Grammar.objectName
  infer_instance

instance objectDeclaration (start : Nat) (cs : Array NodeId) (found : List Modifier) :
    Indifferent (objectDeclaration rec start cs found) := by
  unfold Grammar.objectDeclaration
  infer_instance

instance receiverIfAny (cs : Array NodeId) : Indifferent (receiverIfAny rec cs) := by
  have hmark (id : NodeId) := mark id cosmetic_markNullable
  exact get (fun s => inferInstance) fun _ => rfl

instance constraintStep (cs : Array NodeId) : Indifferent (constraintStep rec cs) := by
  refine step fun name => step fun typed => branch inferInstance (step fun comma => ?_)
  cases comma <;> infer_instance

instance whereClauseIfAny (cs : Array NodeId) : Indifferent (whereClauseIfAny rec cs) := by
  unfold Grammar.whereClauseIfAny
  infer_instance

instance functionBody (cs : Array NodeId) : Indifferent (functionBody rec cs) := by
  unfold Grammar.functionBody
  infer_instance

instance functionDeclaration (start : Nat) (cs : Array NodeId) (found : List Modifier) :
    Indifferent (functionDeclaration rec start cs found) := by
  unfold Grammar.functionDeclaration
  infer_instance

instance accessor : Indifferent (accessor rec) := by
  unfold Grammar.accessor
  infer_instance

instance accessorStep (cs : Array NodeId) : Indifferent (accessorStep rec cs) :=
  get (fun _ => inferInstance) fun _ => rfl

instance propertyName (cs : Array NodeId) : Indifferent (propertyName cs) := by
  unfold Grammar.propertyName
  infer_instance

instance propertyValue (cs : Array NodeId) : Indifferent (propertyValue rec cs) := by
  unfold Grammar.propertyValue
  infer_instance

instance propertyDeclaration (start : Nat) (cs : Array NodeId) (found : List Modifier) :
    Indifferent (propertyDeclaration rec start cs found) := by
  unfold Grammar.propertyDeclaration
  infer_instance

instance constructorCall (cs : Array NodeId) : Indifferent (constructorCall rec cs) := by
  unfold Grammar.constructorCall
  infer_instance

instance secondaryConstructor (start : Nat) (cs : Array NodeId) (found : List Modifier) :
    Indifferent (secondaryConstructor rec start cs found) := by
  unfold Grammar.secondaryConstructor
  infer_instance

instance initializer (start : Nat) (cs : Array NodeId) : Indifferent (initializer rec start cs) := by
  unfold Grammar.initializer
  infer_instance

instance strayModifiers (start : Nat) (cs : Array NodeId) : Indifferent (strayModifiers start cs) := by
  have hmark (id : NodeId) := mark id cosmetic_recovered
  unfold Grammar.strayModifiers
  infer_instance

instance declaration : Indifferent (declaration rec) := by
  refine step fun start => step fun found => step fun k => ?_
  split <;> infer_instance

end Indifferent

end KotlinTree.Grammar
