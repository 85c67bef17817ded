import KotlinTree.Attribution.Expression
import KotlinTree.Proofs.Attribution.Once.Declaration
import KotlinTree.Proofs.Attribution.Expression

/-!
Expressions and statements go once through each of their parts, and so do all parts of a file. Main
statement: no two names are recorded at one node, and no two diagnostics with the same code are at one place.
-/

namespace KotlinTree.Attribution.Setting

variable {source : String} {s : Setting} {rec : Tasks} {id : NodeId}

theorem assignment_once (h : rec.Once s) (hf : s.forest.Sound source) {a : Assignment}
    (hd : s.forest.data (some id) = .assignment a) : Once s [id] (assignment rec a) := by
  have hall : Once s ([a.target] ++ a.value.toList) (assignment rec a) :=
    (h.typeOf_all (some a.target)).bind fun _ => (h.typeOf_all _).discard
  exact hall.of_direct hf hd (List.Subperm.refl _)

theorem binary_once (h : rec.Once s) (hf : s.forest.Sound source) {b : BinaryExpression}
    (hd : s.forest.data (some id) = .binary b) : Once s [id] (s.binary rec b) := by
  unfold binary
  split
  · rename_i hname
    exact infixCall_once h hf hd hname
  · split
    · refine operands_once hf hd ((h.typeOf_all (some b.left)).bind fun _ => ?_)
      exact (h.typeOf_all _).bind_first fun _ => .pure _
    · exact operatorCall_once h hf hd

theorem elvis_once (h : rec.Once s) (hf : s.forest.Sound source) {b : BinaryExpression}
    (hd : s.forest.data (some id) = .binary b) : Once s [id] (s.elvis rec b) := by
  refine operands_once hf hd ((h.typeOf_all (some b.left)).bind fun _ => ?_)
  exact (h.typeOf_all _).bind_first fun _ => .pure _

theorem unary_once (h : rec.Once s) (hf : s.forest.Sound source) {u : UnaryExpression}
    (hd : s.forest.data (some id) = .unary u) : Once s [id] (unary rec u) := by
  have hoperand : Once s [id] (rec.typeOf u.operand) :=
    (h.typeOf_all _).of_option fun x hx =>
      hf.linked.inside_of_mem_parts hd (by simpa [NodeData.parts] using hx)
  refine hoperand.bind_first fun operand => ?_
  split <;> exact .pure _

theorem typeOperation_once (h : rec.Once s) (hf : s.forest.Sound source) {operation : TypeOperation}
    (hd : s.forest.data (some id) = .typeOperation operation) :
    Once s [id] (s.typeOperation rec operation) := by
  have hall : Once s ([operation.expression] ++ s.forest.writtenTypes operation.typeRef)
      (s.typeOperation rec operation) := by
    refine (h.typeOf_all (some operation.expression)).bind fun _ => ?_
    refine (typeUse_once hf _).bind_first fun target => ?_
    split <;> exact .pure _
  exact hall.of_direct hf hd (List.filter_sublist.cons_cons operation.expression).subperm

theorem choice_once (h : rec.Once s) (hf : s.forest.Sound source) {c : IfExpression}
    (hd : s.forest.data (some id) = .ifExpression c) : Once s [id] (s.choice rec c) := by
  have hdirect : (c.condition.toList ++ (c.thenBranch.toList ++ c.elseBranch.toList)).Subperm
      (NodeData.ifExpression c).direct := by
    rw [← List.append_assoc]
    exact List.Subperm.refl _
  refine Once.of_direct ?_ hf hd hdirect
  unfold choice
  refine (h.typeOf_all _).bind fun _ => (Once.inScope _ (h.statement _)).bind fun left => ?_
  split
  · exact .pure _
  · rename_i branch hbranch
    rw [hbranch]
    exact (Once.inScope _ (h.statement (some branch))).bind_first fun _ => .pure _

theorem jump_once (h : rec.Once s) (hf : s.forest.Sound source) (id : NodeId) :
    Once s [id] (s.jump rec id) := by
  unfold jump
  dsimp only
  split
  · refine ((h.typeOf_all _).of_option fun x hx => ?_).discard
    exact hf.linked.inside_of_mem_children (Array.mem_of_back? hx)
  · exact .pure _

theorem lambda_once (h : rec.Once s) (hf : s.forest.Sound source) {l : Lambda}
    (hd : s.forest.data (some id) = .lambda l) : Once s [id] (s.lambda rec l) := by
  have hparts : Once s (s.forest.parameterNodes l.parameters.toList ++ l.statements.toList) (do
      s.parameters rec none l.parameters
      let _ ← s.through (fun (_ : Ty) id => rec.statement (some id)) .unknown l.statements.toList) := by
    refine (parameters_once h hf none _).bind fun _ => ?_
    exact (Once.through (fun _ x _ => h.statement (some x)) _).discard
  have hdirect : (s.forest.parameterNodes l.parameters.toList ++ l.statements.toList).Sublist
      (NodeData.lambda l).direct := List.filter_sublist.append (List.Sublist.refl _)
  have hbody := hparts.of_direct hf hd hdirect.subperm
  refine .inScope _ ?_
  split
  · exact (Once.declareLocal _ _).bind_second fun _ => hbody
  · exact hbody

theorem tokenType_once (hf : s.forest.Sound source) {kind : TokenKind}
    (hkind : s.forest.kind? (some id) = some (.token kind)) : Once s [id] (s.tokenType kind id) := by
  unfold tokenType
  split
  · exact .pure _
  · split
    · rename_i hname
      exact (nameUse_once hf (hname ▸ hkind)).bind_first fun q => .pure _
    · exact .pure _

theorem nodeType_once (h : rec.Once s) (hf : s.forest.Sound source) {kind : NodeKind}
    (hkind : s.forest.kind? (some id) = some (.node kind)) : Once s [id] (s.nodeType rec kind id) := by
  have hpart {d : NodeData} {o : Option NodeId} (hd : s.forest.data (some id) = d)
      (ho : ∀ x ∈ o, x ∈ d.parts) : Once s [id] (rec.typeOf o) :=
    (h.typeOf_all o).of_option fun x hx => hf.linked.inside_of_mem_parts hd (ho x hx)
  unfold nodeType
  split
  · exact (accessUse_once h hf id _).bind_first fun q => .pure _
  · rename_i hd
    exact call_once h hf hd
  -- A receiver that is missing is reported at its own node, which is the only failure there.
  · have hfilled := hf.placed.filled_receiver hf.linked hkind (.inl rfl)
    exact (thisType?_once hfilled).bind_first fun t => .pure _
  · have hfilled := hf.placed.filled_receiver hf.linked hkind (.inr rfl)
    exact (superType?_once hf hfilled).bind_first fun t => .pure _
  · rename_i hd
    exact hpart hd fun x hx => by simpa [NodeData.parts] using hx
  · rename_i hd
    exact binary_once h hf hd
  · rename_i hd
    exact elvis_once h hf hd
  · rename_i hd
    exact unary_once h hf hd
  · rename_i hd
    exact unary_once h hf hd
  · rename_i hd
    exact typeOperation_once h hf hd
  · rename_i hd
    exact typeOperation_once h hf hd
  · rename_i hd
    exact (lambda_once h hf hd).bind_first fun _ => .pure _
  · rename_i hd
    exact choice_once h hf hd
  · rename_i hd
    refine (hpart hd fun x hx => ?_).bind_first fun _ => .pure _
    simpa [NodeData.parts] using hx
  · exact .pure _
  · exact (jump_once h hf id).bind_first fun _ => .pure _
  · exact block_once h hf id
  · rename_i hd
    exact (assignment_once h hf hd).bind_first fun _ => .pure _
  · exact .pure _
  · exact indexing_once h hf id
  · rename_i hd
    exact (callableReference_once h hf hd).bind_first fun _ => .pure _
  · exact classUse_once h hf id
  · exact classUse_once h hf id
  · exact (function_once h hf .block id).bind_first fun _ => .pure _
  · exact (property_once h hf .block id).bind_first fun _ => .pure _
  · exact (keptSource_once h hf id).bind_first fun _ => .pure _
  · exact .pure _

/-- What an expression marks is what the computation of its type marks. -/
theorem expression_once_of {tops : List NodeId}
    (hcompute : Once s tops (match s.forest.kind? (some id) with
      | some (.token kind) => s.tokenType kind id
      | some (.node kind) => s.nodeType rec kind id
      | none => return .unknown)) : Once s tops (s.expression rec id) := by
  unfold expression
  refine Once.bind_first (.deeper _ (hcompute.map some)) fun t => ?_
  split
  · exact (Once.recordType _ _).bind_second fun _ => .pure _
  · exact .pure _

theorem expression_once (h : rec.Once s) (hf : s.forest.Sound source) (id : NodeId) :
    Once s [id] (s.expression rec id) := by
  refine expression_once_of ?_
  split
  · rename_i hkind
    exact tokenType_once hf hkind
  · rename_i hkind
    exact nodeType_once h hf hkind
  · exact .pure _

/-- A written type, an accessor or a list of arguments has no type as an expression. -/
theorem expression_inert (hid : s.forest.isInert id) : Once s [] (s.expression rec id) := by
  refine expression_once_of ?_
  unfold Forest.isInert at hid
  split at hid
  · rename_i hkind
    rw [hkind]
    exact .pure _
  · rename_i hkind
    rw [hkind]
    exact .pure _
  · rename_i hkind
    rw [hkind]
    exact .pure _
  · cases hid

theorem qualifier_once (h : rec.Once s) (hf : s.forest.Sound source) (id : NodeId) :
    Once s [id] (s.qualifier rec id) := by
  unfold qualifier
  split
  · exact .deeper _ (accessUse_once h hf id _)
  · rename_i hkind
    exact .deeper _ (nameUse_once hf hkind)
  · exact (expression_once h hf id).bind_first fun t => .pure _

theorem statement_once (h : rec.Once s) (hf : s.forest.Sound source) (id : NodeId) :
    Once s [id] (s.statement rec id) := by
  unfold statement
  split
  · exact (declaration_once h hf .block id).bind_first fun _ => .pure _
  · split
    · rename_i hd
      exact (assignment_once h hf hd).bind_first fun _ => .pure _
    · exact expression_once h hf id

theorem task_once (h : rec.Once s) (hf : s.forest.Sound source) : (s.task rec).Once s where
  task
    | .expression id => expression_once h hf id
    | .qualifier id => qualifier_once h hf id
    | .statement id => statement_once h hf id
    | .declaration owner id => declaration_once h hf owner id
  inert _ hid := expression_inert hid

/-- However deep the parts of a file are nested, each is gone through once. -/
theorem tasks_once (hf : s.forest.Sound source) (n : Nat) : (s.tasks n).Once s := by
  induction n with
  | zero => exact ⟨fun task => .pure task.nothing, fun id _ => .pure _⟩
  | succ n ih => exact task_once ih hf

end KotlinTree.Attribution.Setting

namespace KotlinTree
open Attribution

namespace Attribution

theorem Setting.file_once {source : String} {s : Setting} (hf : s.forest.Sound source) (root : NodeId) :
    Once s [root] (s.file root) := by
  unfold Setting.file
  split
  · rename_i file hd
    have hinside := Setting.tasks_once hf s.forest.size
    refine Once.of_direct ?_ hf hd (List.Subperm.refl _)
    refine (Once.through (fun _ x _ => Setting.importUse_once hf x) ()).bind fun _ => ?_
    refine (Once.through (fun _ x _ => ?_) ()).bind_first fun _ => Once.stopped.discard
    exact Setting.declaration_once hinside hf _ x
  · exact .pure _

/-- What a whole run marks, it marks once. -/
theorem Once.of_run {s : Setting} {root : NodeId} {α : Type} {p : Attributing α} (hp : Once s [root] p) :
    (Id.run (p.run {})).2.marks.OnceIn s.forest [root] := by
  obtain ⟨m, hst, hm⟩ := hp (List.pairwise_singleton _ _) {}
  have hmarks : ({} : State).marks ++ m = m := rfl
  rw [hst, hmarks]
  exact hm

/-- What is marked once has been found once. -/
theorem Marks.OnceIn.pairwise {φ : Findings} {f : Forest} {tops : List NodeId}
    (h : φ.marks.OnceIn f tops) :
    (φ.uses.toList.Pairwise fun a b => a.2.node ≠ b.2.node) ∧
      φ.diagnostics.toList.Pairwise fun d e =>
        ¬ (d.code = e.code ∧ d.start = e.start ∧ d.length = e.length) := by
  refine ⟨List.pairwise_map.mp h.uses_nodup, ?_⟩
  refine (List.pairwise_map.mp h.failures_nodup).imp fun {d e} hde hsame => ?_
  exact hde (Prod.ext hsame.2.1 hsame.2.2)

end Attribution

/-- For every source text, no two names are recorded at one node while its file is attributed, and no
two diagnostics of the attributed file have the same code and the same place. -/
theorem attributeUnit_singlePass (env : Environment) (fileName source : String) (bound : BoundUnit)
    (stops : Nat → Bool) :
    let u := ParsedUnit.ofSource fileName source
    let s : Setting := { forest := u.forest, env, unit := bound, stops }
    let st := (Id.run ((s.file u.root).run {})).2
    (st.uses.toList.Pairwise fun a b => a.2.node ≠ b.2.node) ∧
      ∀ attributed, attributeUnit env u bound stops = .ok attributed →
        attributed.diagnostics.Pairwise fun d e =>
          ¬ (d.code = e.code ∧ d.start = e.start ∧ d.length = e.length) := by
  intro u s st
  have hsound : s.forest.Sound source := ParsedUnit.ofSource_sound fileName source
  have hmarks : st.marks.OnceIn s.forest [u.root] := (Setting.file_once hsound u.root).of_run
  have hunit (attributed : AttributedUnit) (h : attributeUnit env u bound stops = .ok attributed) :
      attributed = st.toFindings.unit u := (eq_of_attributeUnit h).2
  -- From here on only what is known of the end of the run matters, not how it comes about.
  clear_value st
  obtain ⟨huses, hdiagnostics⟩ := hmarks.pairwise
  refine ⟨huses, fun attributed h => ?_⟩
  rw [hunit attributed h]
  exact hdiagnostics

end KotlinTree
