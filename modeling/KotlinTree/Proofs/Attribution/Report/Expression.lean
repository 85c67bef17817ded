import KotlinTree.Attribution.Expression
import KotlinTree.Proofs.Attribution.Report.Declaration

/-!
What expressions and statements report if their parts report it. Main statement: every part of a file
proceeds. An expression counts as one level deeper than what is around it.
-/

namespace KotlinTree.Attribution.Setting

variable {s : Setting} {rec : Tasks} {d : Diagnostic}

theorem assignment_reports (h : rec.Proceed) (a : Assignment) :
    Reports d (fun c => ∃ x ∈ a.target :: a.value.toList, rec.Finds d x c) (assignment rec a) :=
  ((h.typeOf _).bind fun _ => (h.typeOf _).bind_first fun _ => .pure _).mono fun _ hc => by simpa using hc

theorem binary_reports (h : rec.Proceed) (b : BinaryExpression) :
    Reports d (fun c => ∃ x ∈ b.left :: b.right.toList, rec.Finds d x c) (s.binary rec b) := by
  refine .ite (fun _ => infixCall_reports h b) fun _ => .ite (fun _ => ?_) fun _ => operatorCall_reports h b
  exact ((h.typeOf _).bind fun _ => (h.typeOf _).bind_first fun _ => .pure _).mono fun _ hc => by simpa using hc

theorem elvis_reports (h : rec.Proceed) (b : BinaryExpression) :
    Reports d (fun c => ∃ x ∈ b.left :: b.right.toList, rec.Finds d x c) (s.elvis rec b) :=
  ((h.typeOf _).bind fun _ => (h.typeOf _).bind_first fun _ => .pure _).mono fun _ hc => by simpa using hc

theorem unary_reports (h : rec.Proceed) (u : UnaryExpression) :
    Reports d (fun c => ∃ x ∈ u.operand, rec.Finds d x c) (unary rec u) := by
  refine (h.typeOf _).bind_first fun _ => ?_
  split <;> exact .pure _

theorem typeOperation_reports (h : rec.Proceed) (o : TypeOperation) :
    Reports d (fun c => rec.Finds d o.expression c ∨ ∃ x ∈ o.typeRef, Finds d (s.typeUse (some x)) c)
      (s.typeOperation rec o) := by
  refine ((h.typeOf _).bind fun _ => (typeUse_reports _).bind_first fun _ => ?_).mono fun _ hc => ?_
  · split <;> exact .pure _
  · exact hc.imp_left fun hc => ⟨_, rfl, hc⟩

theorem choice_reports (h : rec.Proceed) (i : IfExpression) :
    Reports d (fun c => (∃ x ∈ i.condition, rec.Finds d x c) ∨
      (∃ x ∈ i.thenBranch, Finds d (rec (.statement x)) c) ∨
      ∃ x ∈ i.elseBranch, Finds d (rec (.statement x)) c) (s.choice rec i) := by
  refine (h.typeOf _).bind fun _ => (Reports.inScope _ (h.statement _)).bind fun _ => ?_
  split
  · rename_i hnone
    exact (Reports.pure _).mono fun _ ⟨_, hx, _⟩ => nomatch hnone.symm.trans hx
  · rename_i branch hbranch
    rw [hbranch]
    exact (Reports.inScope _ (h.statement (some branch))).bind_first fun _ => .pure _

theorem jump_reports (h : rec.Proceed) (id : NodeId) :
    Reports d (fun c => s.forest.kind? (s.forest.children (some id))[0]? = some (.token .throwKeyword) ∧
      ∃ x ∈ (s.forest.children (some id)).back?, rec.Finds d x c) (s.jump rec id) := by
  refine .ite (fun _ => ?_) fun hk => (Reports.pure _).mono fun _ hc => hk hc.1
  exact ((h.typeOf _).bind_first fun _ => .pure _).mono fun _ hc => hc.2

theorem lambda_reports (h : rec.Proceed) (l : Lambda) :
    Reports d (fun c => Finds d (s.parameters rec none l.parameters) c ∨
      ∃ x ∈ l.statements, Finds d (rec (.statement x)) c) (s.lambda rec l) := by
  have hrest : Reports d (fun c => Finds d (s.parameters rec none l.parameters) c ∨
      ∃ x ∈ l.statements, Finds d (rec (.statement x)) c) (do
        s.parameters rec none l.parameters
        let _ ← s.through (fun _ id => rec.statement (some id)) .unknown l.statements.toList) := by
    refine ((parameters_reports h none _).self.bind fun _ => (Reports.through (fun _ x _ =>
      (h (.statement x) d).self) _).bind_first fun _ => .pure _).mono fun c hc => ?_
    simpa using hc
  refine .inScope _ ?_
  dsimp only
  split
  · exact (Reports.declareLocal _ _).bind_second fun _ => hrest
  · exact hrest

theorem tokenType_quiet (kind : TokenKind) (id : NodeId) : Quiet d (s.tokenType kind id) := by
  unfold tokenType
  split
  · exact .pure _
  · exact .ite (fun _ => (nameUse_quiet id).bind_first fun _ => .pure _) fun _ => .pure _

theorem nodeType_quiet (h : rec.Proceed) (kind : NodeKind) (id : NodeId) :
    Quiet d (s.nodeType rec kind id) := by
  -- One case for each kind of node: none of them is asked to find a diagnostic here.
  unfold nodeType
  split
  · exact (accessUse_reports h id .value).quiet.bind_first fun _ => .pure _
  · exact (call_reports h _).quiet
  · exact (thisType?_quiet id).bind_first fun _ => .pure _
  · exact (superType?_reports id).quiet.bind_first fun _ => .pure _
  · exact (h.typeOf _).quiet
  · exact (binary_reports h _).quiet
  · exact (elvis_reports h _).quiet
  · exact (unary_reports h _).quiet
  · exact (unary_reports h _).quiet
  · exact (typeOperation_reports h _).quiet
  · exact (typeOperation_reports h _).quiet
  · exact (lambda_reports h _).quiet.bind_first fun _ => .pure _
  · exact (choice_reports h _).quiet
  · exact (h.typeOf _).quiet.bind_first fun _ => .pure _
  · exact .pure _
  · exact (jump_reports h id).quiet.bind_first fun _ => .pure _
  · exact (block_reports h id).quiet
  · exact (assignment_reports h _).quiet.bind_first fun _ => .pure _
  · exact .pure _
  · exact (indexing_reports h id).quiet
  · exact (callableReference_reports h _).quiet.bind_first fun _ => .pure _
  iterate 2 exact (classUse_reports h id).quiet
  · exact (function_reports h .block id).quiet.bind_first fun _ => .pure _
  · exact (property_reports h .block id).quiet.bind_first fun _ => .pure _
  · exact (keptSource_quiet h id).bind_first fun _ => .pure _
  · exact .pure _

theorem expression_reports (h : rec.Proceed) (id : NodeId) :
    Reports d (fun c => c.depth < maxDepth ∧ ∃ k, s.forest.kind? (some id) = some (.node k) ∧
      Finds d (s.nodeType rec k id) c.deeper) (s.expression rec id) := by
  unfold expression
  refine (Reports.deeper (R := fun c => ∃ k, s.forest.kind? (some id) = some (.node k) ∧
    Finds d (s.nodeType rec k id) c) none (.map some ?_)).bind_first fun t => ?_
  -- Tokens report nothing; of nodes, the kind is the one that is asked about.
  · split
    · rename_i k hk
      refine (tokenType_quiet k id).mono ?_
      rintro c ⟨k', hk', -⟩
      cases hk.symm.trans hk'
    · rename_i k hk
      refine (nodeType_quiet h k id).self.mono ?_
      rintro c ⟨k', hk', hc⟩
      cases hk.symm.trans hk'
      exact hc
    · rename_i hk
      refine (Reports.pure _).mono ?_
      rintro c ⟨k', hk', -⟩
      cases hk.symm.trans hk'
  · cases t with
    | some t => exact (Reports.recordType _ _).bind_first fun _ => .pure _
    | none => exact .pure _

theorem qualifier_reports (h : rec.Proceed) (id : NodeId) :
    Reports d (fun c => c.depth < maxDepth ∧ ∃ k, s.forest.kind? (some id) = some (.node k) ∧
      Finds d (s.nodeType rec k id) c.deeper ∧
      (k = .propertyAccessExpression → Finds d (s.accessUse rec id .value) c.deeper))
      (s.qualifier rec id) := by
  unfold qualifier
  split
  · rename_i hk
    refine (Reports.deeper _ (accessUse_reports h id .value).self).mono ?_
    rintro c ⟨hdepth, k, hk', -, hc⟩
    cases hk.symm.trans hk'
    exact ⟨hdepth, hc rfl⟩
  · rename_i hk
    exact (Reports.deeper _ (nameUse_quiet id)).mono fun _ ⟨_, _, hk', _⟩ => nomatch hk.symm.trans hk'
  · refine ((expression_reports h id).bind_first fun _ => .pure _).mono ?_
    exact fun c ⟨hdepth, k, hk, hc, _⟩ => ⟨hdepth, k, hk, hc⟩

/-- A statement is a declaration or an assignment, or else an expression. -/
theorem statement_reports (h : rec.Proceed) (id : NodeId) :
    Reports d (fun c => s.isDeclaration id = true ∧ Finds d (s.declaration rec .block id) c ∨
      s.isDeclaration id = false ∧ (∃ a, s.forest.kind? (some id) = some (.node .assignment) ∧
        s.forest.data (some id) = .assignment a ∧ Finds d (assignment rec a) c) ∨
      s.isDeclaration id = false ∧ s.forest.kind? (some id) ≠ some (.node .assignment) ∧
        Finds d (s.expression rec id) c) (s.statement rec id) := by
  refine .ite (fun hdeclaration => ?_) fun hdeclaration => ?_
  · refine ((declaration_reports h .block id).self.bind_first fun _ => .pure _).mono ?_
    simp [hdeclaration]
  · split
    · rename_i a hk ha
      refine ((assignment_reports h a).self.bind_first fun _ => .pure _).mono ?_
      simp [hdeclaration, hk, ha]
    · rename_i hother
      refine (expression_reports h id).self.mono ?_
      rintro c (⟨htrue, -⟩ | ⟨-, a, hk, ha, -⟩ | ⟨-, -, hc⟩)
      · exact absurd htrue hdeclaration
      · exact absurd ha (hother a hk)
      · exact hc

theorem task_quiet (h : rec.Proceed) (task : Task) : Quiet d (s.task rec task) := by
  cases task with
  | expression id => exact (expression_reports h id).quiet
  | qualifier id => exact (qualifier_reports h id).quiet
  | statement id => exact (statement_reports h id).quiet
  | declaration owner id => exact (declaration_reports h owner id).quiet

/-- All parts of a file proceed. -/
theorem tasks_proceed (s : Setting) (n : Nat) : (s.tasks n).Proceed := by
  induction n with
  | zero => exact fun _ _ => .pure _
  | succ n ih => exact fun task _ => task_quiet ih task

end KotlinTree.Attribution.Setting
