import KotlinTree.Attribution.Expression
import KotlinTree.Attribution.Unit
import KotlinTree.Proofs.Attribution.Curtail.Declaration

/-!
Expressions and statements are cut short where their parts are, and with them all parts of a file. Main
statement: a file is attributed as a whole or not at all. A caller that says that it is to stop gets an error
with the name of the file, and any other caller gets what it would have got without asking.
-/

namespace KotlinTree.Attribution.Setting

variable {s : Setting} {rec rec' : Tasks}

theorem assignment_curtails {stops : Nat → Bool} (h : Tasks.Curtail stops rec rec') (a : Assignment) :
    Curtails stops (assignment rec a) (assignment rec' a) :=
  (h.typeOf _).seq (h.typeOf _).discard

theorem binary_curtails (h : Tasks.Curtail s.stops rec rec') (b : BinaryExpression) :
    Curtails s.stops (s.binary rec b) (s.endless.binary rec' b) := by
  unfold binary
  split
  · exact infixCall_curtails h b
  · split
    · exact (h.typeOf _).seq ((h.typeOf _).seq (.pure _))
    · exact operatorCall_curtails h b

theorem elvis_curtails (h : Tasks.Curtail s.stops rec rec') (b : BinaryExpression) :
    Curtails s.stops (s.elvis rec b) (s.endless.elvis rec' b) :=
  (h.typeOf _).bind fun _ => (h.typeOf _).bind fun _ => .pure _

theorem unary_curtails {stops : Nat → Bool} (h : Tasks.Curtail stops rec rec') (u : UnaryExpression) :
    Curtails stops (unary rec u) (unary rec' u) := by
  refine (h.typeOf _).bind fun operand => ?_
  split
  · exact .pure _
  · exact .pure _
  · exact .pure _

theorem typeOperation_curtails (h : Tasks.Curtail s.stops rec rec') (operation : TypeOperation) :
    Curtails s.stops (s.typeOperation rec operation) (s.endless.typeOperation rec' operation) := by
  refine (h.typeOf _).seq ((typeUse_curtails _).bind fun target => ?_)
  split
  · exact .pure _
  · exact .pure _
  · exact .pure _
  · exact .pure _

theorem choice_curtails (h : Tasks.Curtail s.stops rec rec') (c : IfExpression) :
    Curtails s.stops (s.choice rec c) (s.endless.choice rec' c) := by
  refine (h.typeOf _).seq ((Curtails.inScope _ (h.statement _)).bind fun left => ?_)
  split
  · exact .pure _
  · exact (Curtails.inScope _ (h.statement _)).bind fun right => .pure _

theorem jump_curtails (h : Tasks.Curtail s.stops rec rec') (id : NodeId) :
    Curtails s.stops (s.jump rec id) (s.endless.jump rec' id) :=
  .ite (fun _ => (h.typeOf _).discard) fun _ => .pure _

theorem lambda_curtails (h : Tasks.Curtail s.stops rec rec') (l : Lambda) :
    Curtails s.stops (s.lambda rec l) (s.endless.lambda rec' l) := by
  have hstatements : Curtails s.stops
      (s.through (fun (_ : Ty) id => rec.statement (some id)) .unknown l.statements.toList)
      (s.endless.through (fun (_ : Ty) id => rec'.statement (some id)) .unknown l.statements.toList) :=
    .through (fun _ x => h.statement (some x)) .unknown
  have hbody := (parameters_curtails h none l.parameters).seq hstatements.discard
  refine .inScope _ ?_
  split
  · exact (Curtails.of_steady (.declareLocal _ _)).seq hbody
  · exact hbody

theorem tokenType_curtails (kind : TokenKind) (id : NodeId) :
    Curtails s.stops (s.tokenType kind id) (s.endless.tokenType kind id) := by
  unfold tokenType
  simp only [endless_forest]
  split
  · exact .pure _
  · split
    · exact (nameUse_curtails id).bind fun q => .pure _
    · exact .pure _

theorem nodeType_curtails (h : Tasks.Curtail s.stops rec rec') (kind : NodeKind) (id : NodeId) :
    Curtails s.stops (s.nodeType rec kind id) (s.endless.nodeType rec' kind id) := by
  -- One case for each kind of node, in the order of the definition.
  unfold nodeType
  simp only [endless_forest]
  split
  · exact (accessUse_curtails h id _).bind fun q => .pure _
  · exact call_curtails h _
  · exact (thisType?_curtails id).bind fun t => .pure _
  · exact (superType?_curtails id).bind fun t => .pure _
  · exact h.typeOf _
  · exact binary_curtails h _
  · exact elvis_curtails h _
  · exact unary_curtails h _
  · exact unary_curtails h _
  · exact typeOperation_curtails h _
  · exact typeOperation_curtails h _
  · exact (lambda_curtails h _).seq (.pure _)
  · exact choice_curtails h _
  · exact (h.typeOf _).seq (.pure _)
  · exact .pure _
  · exact (jump_curtails h id).seq (.pure _)
  · exact block_curtails h id
  · exact (assignment_curtails h _).seq (.pure _)
  · exact .pure _
  · exact indexing_curtails h id
  · exact (callableReference_curtails h _).seq (.pure _)
  · exact classUse_curtails h id
  · exact classUse_curtails h id
  · exact (function_curtails h .block id).seq (.pure _)
  · exact (property_curtails h .block id).seq (.pure _)
  · exact (keptSource_curtails h id).seq (.pure _)
  · exact .pure _

theorem expression_curtails (h : Tasks.Curtail s.stops rec rec') (id : NodeId) :
    Curtails s.stops (s.expression rec id) (s.endless.expression rec' id) := by
  unfold expression
  simp only [endless_forest]
  refine Curtails.bind (.deeper none (.map some ?_)) fun t? => ?_
  · split
    · exact tokenType_curtails _ id
    · exact nodeType_curtails h _ id
    · exact .pure _
  · cases t? with
    | none => exact .pure _
    | some t => exact (Curtails.of_steady (.recordType id t)).seq (.pure t)

theorem qualifier_curtails (h : Tasks.Curtail s.stops rec rec') (id : NodeId) :
    Curtails s.stops (s.qualifier rec id) (s.endless.qualifier rec' id) := by
  unfold qualifier
  simp only [endless_forest]
  split
  · exact .deeper _ (accessUse_curtails h id _)
  · exact .deeper _ (nameUse_curtails id)
  · exact (expression_curtails h id).bind fun t => .pure _

theorem statement_curtails (h : Tasks.Curtail s.stops rec rec') (id : NodeId) :
    Curtails s.stops (s.statement rec id) (s.endless.statement rec' id) := by
  unfold statement
  refine .ite (fun _ => (declaration_curtails h .block id).seq (.pure _)) fun _ => ?_
  simp only [endless_forest]
  split
  · exact (assignment_curtails h _).seq (.pure _)
  · exact expression_curtails h id

theorem task_curtails (h : Tasks.Curtail s.stops rec rec') :
    Tasks.Curtail s.stops (s.task rec) (s.endless.task rec')
  | .expression id => expression_curtails h id
  | .qualifier id => qualifier_curtails h id
  | .statement id => statement_curtails h id
  | .declaration owner id => declaration_curtails h owner id

/-- However deep the parts of a file are nested, they are cut short where they are told to stop. -/
theorem tasks_curtail (s : Setting) (n : Nat) : Tasks.Curtail s.stops (s.tasks n) (s.endless.tasks n) := by
  induction n with
  | zero => exact fun _ => .pure _
  | succ n ih => exact task_curtails ih

end KotlinTree.Attribution.Setting

namespace KotlinTree
open Attribution

theorem Attribution.Setting.file_curtails (s : Setting) (root : NodeId) :
    Curtails s.stops (s.file root) (s.endless.file root) := by
  unfold Setting.file
  simp only [endless_forest]
  split
  · have hinside := Setting.tasks_curtail s s.forest.size
    refine (Curtails.through (fun _ x => Setting.importUse_curtails x) ()).seq ?_
    refine (Curtails.through (fun _ x => ?_) ()).seq Curtails.stopped.discard
    exact Setting.declaration_curtails hinside _ x
  · exact .pure ()

namespace Attribution

/-- How often the caller is asked whether to stop, while a file is attributed. -/
def timesAsked (env : Environment) (u : ParsedUnit) (bound : BoundUnit) (stops : Nat → Bool) : Nat :=
  let s : Setting := { forest := u.forest, env, unit := bound, stops }
  (Id.run ((s.file u.root).run {})).2.polls

/-- A run that starts with nothing asked is stopped exactly when some answer has been to stop. -/
theorem Curtails.isStopped_iff_exists {stops : Nat → Bool} {α : Type} {p q : Attributing α}
    (h : Curtails stops p q) : (Id.run (p.run {})).2.isStopped = true ↔
      ∃ n < (Id.run (p.run {})).2.polls, stops n = true := by
  rw [h.isStopped_iff]
  constructor
  · rintro (hstart | ⟨n, -, hlt, hn⟩)
    · cases hstart
    · exact ⟨n, hlt, hn⟩
  · rintro ⟨n, hlt, hn⟩
    exact .inr ⟨n, Nat.zero_le n, hlt, hn⟩

end Attribution

/-- Whatever the caller answers: if one of the answers is to stop, all that comes of it is the error that
names the file; and if none is, the file is attributed as it is for a caller that never says so. -/
theorem attributeUnit_cancelled_or_whole (env : Environment) (u : ParsedUnit) (bound : BoundUnit)
    (stops : Nat → Bool) :
    ((∃ n < timesAsked env u bound stops, stops n = true) ∧
        attributeUnit env u bound stops = .error (.cancelled bound.fileName)) ∨
      ((∀ n < timesAsked env u bound stops, stops n = false) ∧
        ∃ attributed, attributeUnit env u bound stops = .ok attributed ∧
          attributeUnit env u bound (fun _ => false) = .ok attributed) := by
  let s : Setting := { forest := u.forest, env, unit := bound, stops }
  have hcurtails : Curtails stops (s.file u.root) (s.endless.file u.root) := s.file_curtails u.root
  have hiff := hcurtails.isStopped_iff_exists
  have hsame := hcurtails.eq_of_not_stopped {}
  -- What a file comes to is read off the end of its run.
  have hunit : attributeUnit env u bound stops =
      if (Id.run ((s.file u.root).run {})).2.isStopped then .error (.cancelled bound.fileName)
      else .ok ((Id.run ((s.file u.root).run {})).2.toFindings.unit u) := rfl
  have hwhole : attributeUnit env u bound (fun _ => false) =
      if (Id.run ((s.endless.file u.root).run {})).2.isStopped then .error (.cancelled bound.fileName)
      else .ok ((Id.run ((s.endless.file u.root).run {})).2.toFindings.unit u) := rfl
  cases hend : (Id.run ((s.file u.root).run {})).2.isStopped with
  | true =>
    refine .inl ⟨hiff.mp hend, ?_⟩
    rw [hunit, hend]
    rfl
  | false =>
    refine .inr ⟨fun n hn => ?_, (Id.run ((s.file u.root).run {})).2.toFindings.unit u, ?_, ?_⟩
    · rw [← Bool.not_eq_true]
      intro hstops
      exact Bool.false_ne_true (hend.symm.trans (hiff.mpr ⟨n, hn, hstops⟩))
    · rw [hunit, hend]
      rfl
    · rw [hwhole, ← hsame hend, hend]
      rfl

end KotlinTree
