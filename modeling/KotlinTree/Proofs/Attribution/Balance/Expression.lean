import KotlinTree.Attribution.Expression
import KotlinTree.Grammar.Unit
import KotlinTree.Proofs.Attribution.Balance.Declaration

/-!
Expressions and statements leave their surroundings as they are, and with them all parts of a file. Main
statement: whatever is attributed, in whatever state and whenever the caller says to stop, what surrounds the
place is the same afterwards, and no part is attributed deeper than the maximum.
-/

namespace KotlinTree.Attribution

namespace Setting

variable {s : Setting} {rec rec' : Tasks}

theorem assignment_balanced (h : Tasks.Balance rec rec') (a : Assignment) :
    Balanced (assignment rec a) (assignment rec' a) :=
  (h.typeOf _).seq (h.typeOf _).discard

theorem binary_balanced (h : Tasks.Balance rec rec') (b : BinaryExpression) :
    Balanced (s.binary rec b) (s.binary rec' b) := by
  unfold binary
  split
  · exact infixCall_balanced h b
  · split
    · exact (h.typeOf _).seq ((h.typeOf _).seq (.pure _))
    · exact operatorCall_balanced h b

theorem elvis_balanced (h : Tasks.Balance rec rec') (b : BinaryExpression) :
    Balanced (s.elvis rec b) (s.elvis rec' b) :=
  (h.typeOf _).bind fun _ => (h.typeOf _).bind fun _ => .pure _

theorem unary_balanced (h : Tasks.Balance rec rec') (u : UnaryExpression) :
    Balanced (unary rec u) (unary rec' u) := by
  refine (h.typeOf _).bind fun operand => ?_
  split <;> exact .pure _

theorem typeOperation_balanced (h : Tasks.Balance rec rec') (operation : TypeOperation) :
    Balanced (s.typeOperation rec operation) (s.typeOperation rec' operation) := by
  refine (h.typeOf _).seq ((typeUse_balanced _).bind fun target => ?_)
  split <;> exact .pure _

theorem choice_balanced (h : Tasks.Balance rec rec') (c : IfExpression) :
    Balanced (s.choice rec c) (s.choice rec' c) := by
  refine (h.typeOf _).seq ((Balanced.inScope _ (h.statement _)).bind fun left => ?_)
  split
  · exact .pure _
  · exact (Balanced.inScope _ (h.statement _)).bind fun right => .pure _

theorem jump_balanced (h : Tasks.Balance rec rec') (id : NodeId) :
    Balanced (s.jump rec id) (s.jump rec' id) :=
  .ite (h.typeOf _).discard (.pure _)

theorem lambda_balanced (h : Tasks.Balance rec rec') (l : Lambda) :
    Balanced (s.lambda rec l) (s.lambda rec' l) := by
  have hstatements : Balanced
      (s.through (fun (_ : Ty) id => rec.statement (some id)) .unknown l.statements.toList)
      (s.through (fun (_ : Ty) id => rec'.statement (some id)) .unknown l.statements.toList) :=
    .through (fun _ x => h.statement (some x)) .unknown
  have hbody := (parameters_balanced (s := s) h none l.parameters).seq hstatements.discard
  refine .inScope _ ?_
  split
  · exact (Balanced.declareLocal _ _).seq hbody
  · exact hbody

theorem tokenType_balanced (kind : TokenKind) (id : NodeId) :
    Balanced (s.tokenType kind id) (s.tokenType kind id) := by
  unfold tokenType
  split
  · exact .pure _
  · split
    · exact (nameUse_balanced id).bind fun q => .pure _
    · exact .pure _

theorem nodeType_balanced (h : Tasks.Balance rec rec') (kind : NodeKind) (id : NodeId) :
    Balanced (s.nodeType rec kind id) (s.nodeType rec' kind id) := by
  -- One case for each kind of node, in the order of the definition.
  unfold nodeType
  split
  · exact (accessUse_balanced h id _).bind fun q => .pure _
  · exact call_balanced h _
  · exact (thisType?_balanced id).bind fun t => .pure _
  · exact (superType?_balanced id).bind fun t => .pure _
  · exact h.typeOf _
  · exact binary_balanced h _
  · exact elvis_balanced h _
  · exact unary_balanced h _
  · exact unary_balanced h _
  · exact typeOperation_balanced h _
  · exact typeOperation_balanced h _
  · exact (lambda_balanced h _).seq (.pure _)
  · exact choice_balanced h _
  · exact (h.typeOf _).seq (.pure _)
  · exact .pure _
  · exact (jump_balanced h id).seq (.pure _)
  · exact block_balanced h id
  · exact (assignment_balanced h _).seq (.pure _)
  · exact .pure _
  · exact indexing_balanced h id
  · exact (callableReference_balanced h _).seq (.pure _)
  · exact classUse_balanced h id
  · exact classUse_balanced h id
  · exact (function_balanced h .block id).seq (.pure _)
  · exact (property_balanced h .block id).seq (.pure _)
  · exact (keptSource_balanced h id).seq (.pure _)
  · exact .pure _

theorem expression_balanced (h : Tasks.Balance rec rec') (id : NodeId) :
    Balanced (s.expression rec id) (s.expression rec' id) := by
  unfold expression
  refine Balanced.bind (.deeper none (.map some ?_)) fun t? => ?_
  · split
    · exact tokenType_balanced _ id
    · exact nodeType_balanced h _ id
    · exact .pure _
  · cases t? with
    | none => exact .pure _
    | some t => exact (Balanced.recordType id t).seq (.pure t)

theorem qualifier_balanced (h : Tasks.Balance rec rec') (id : NodeId) :
    Balanced (s.qualifier rec id) (s.qualifier rec' id) := by
  unfold qualifier
  split
  · exact .deeper _ (accessUse_balanced h id _)
  · exact .deeper _ (nameUse_balanced id)
  · exact (expression_balanced h id).bind fun t => .pure _

theorem statement_balanced (h : Tasks.Balance rec rec') (id : NodeId) :
    Balanced (s.statement rec id) (s.statement rec' id) := by
  unfold statement
  refine .ite ((declaration_balanced h .block id).seq (.pure _)) ?_
  split
  · exact (assignment_balanced h _).seq (.pure _)
  · exact expression_balanced h id

theorem task_balanced (h : Tasks.Balance rec rec') : Tasks.Balance (s.task rec) (s.task rec')
  | .expression id => expression_balanced h id
  | .qualifier id => qualifier_balanced h id
  | .statement id => statement_balanced h id
  | .declaration owner id => declaration_balanced h owner id

/-- The parts of a file, nested at most `n` deep, where those that are come to too deep go astray. -/
def tasksOr (s : Setting) (astray : Tasks) : Nat → Tasks
  | 0 => fun task => do
    if (← get).depth > maxDepth then astray task else return task.nothing
  | n + 1 => fun task => do
    if (← get).depth > maxDepth then astray task else s.task (s.tasksOr astray n) task

/-- However deep the parts of a file are nested, they leave their surroundings as they are, and none is come
to too deep. -/
theorem tasks_balance (s : Setting) (astray : Tasks) (n : Nat) :
    Tasks.Balance (s.tasks n) (s.tasksOr astray n) := by
  -- Where it is not too deep, nothing goes astray.
  have hstraight {α : Type} {p q : Attributing α} (lost : Attributing α) (hp : Balanced p q) :
      Balanced p (do if (← get).depth > maxDepth then lost else q) := by
    intro st
    obtain ⟨hbalances, hsame⟩ := hp st
    refine ⟨hbalances, fun hdepth => ?_⟩
    rw [← hsame hdepth]
    have hnot : ¬st.depth > maxDepth := Nat.not_lt.mpr hdepth
    simp [hnot]
  induction n with
  | zero => exact fun task => hstraight _ (.pure task.nothing)
  | succ n ih => exact fun task => hstraight _ (task_balanced ih task)

end Setting

/-- What there is to attribute in a file, the parts of expressions and declarations among it. -/
inductive Entry where
  | declaration (owner : Owner) (id : NodeId)
  | classLike (id : NodeId)
  | function (owner : Owner) (id : NodeId)
  | property (owner : Owner) (id : NodeId)
  | statement (id : NodeId)
  | block (id : NodeId)
  | expression (id : NodeId)
  | qualifier (id : NodeId)
  | typeReference (id : Option NodeId)

namespace Entry

/-- What it yields. -/
abbrev Result : Entry → Type
  | declaration .. | function .. | property .. => Unit
  | classLike _ | statement _ | block _ | expression _ | typeReference _ => Ty
  | qualifier _ => Qualifier

/-- How it is attributed, given how to attribute its parts. -/
def program (s : Setting) (rec : Tasks) : (entry : Entry) → Attributing entry.Result
  | declaration owner id => s.declaration rec owner id
  | classLike id => s.classUse rec id
  | function owner id => s.function rec owner id
  | property owner id => s.property rec owner id
  | statement id => s.statement rec id
  | block id => s.block rec id
  | expression id => s.expression rec id
  | qualifier id => s.qualifier rec id
  | typeReference id => s.typeUse id

theorem program_balanced {s : Setting} {rec rec' : Tasks} (h : Tasks.Balance rec rec') (entry : Entry) :
    Balanced (entry.program s rec) (entry.program s rec') := by
  cases entry with
  | declaration owner id => exact s.declaration_balanced h owner id
  | classLike id => exact s.classUse_balanced h id
  | function owner id => exact s.function_balanced h owner id
  | property owner id => exact s.property_balanced h owner id
  | statement id => exact s.statement_balanced h id
  | block id => exact s.block_balanced h id
  | expression id => exact s.expression_balanced h id
  | qualifier id => exact s.qualifier_balanced h id
  | typeReference id => exact s.typeUse_balanced id

/-- Whatever is attributed in whatever state, and whenever the caller says to stop, what surrounds the place
is the same afterwards, but for what the innermost scope declares. From a state that is not too deep, no part
is attributed in one that is: what would be done there makes no difference. -/
theorem balances_program (s : Setting) (n : Nat) (entry : Entry) (st : State) :
    Balances st (Id.run ((entry.program s (s.tasks n)).run st)).2 ∧
      (st.depth ≤ maxDepth → ∀ astray : Tasks,
        Id.run ((entry.program s (s.tasksOr astray n)).run st) =
          Id.run ((entry.program s (s.tasks n)).run st)) := by
  have h (astray : Tasks) := program_balanced (s := s) (s.tasks_balance astray n) entry st
  exact ⟨(h fun task => pure task.nothing).1, fun hdepth astray => (h astray).2 hdepth⟩

/-- A function with a block, in which a name is called with a lambda. -/
def calling : Setting where
  forest := (ParsedUnit.ofSource "a.kt" "fun f() { g { x } }").forest
  env := {}
  unit := { fileName := "a.kt", scope := {}, facade := "AKt", classNames := [] }

/-- Just above the maximum the block is attributed with the call in it. What is in the lambda is too deep. -/
theorem calling_balances : ({ depth := maxDepth - 1 } : State).depth ≤ maxDepth ∧ ∀ astray : Tasks,
    Id.run (((block 12).program calling (calling.tasksOr astray 16)).run { depth := maxDepth - 1 }) =
      Id.run (((block 12).program calling (calling.tasks 16)).run { depth := maxDepth - 1 }) := by
  have hdepth : ({ depth := maxDepth - 1 } : State).depth ≤ maxDepth := Nat.sub_le _ _
  exact ⟨hdepth, (balances_program calling 16 (block 12) { depth := maxDepth - 1 }).2 hdepth⟩

end Entry

end KotlinTree.Attribution
