import KotlinTree.Attribution.Expression
import KotlinTree.Attribution.Unit
import KotlinTree.Proofs.Attribution.Declaration

/-!
How expressions and statements are composed, and with them all parts of a file. Main statement: attribution
of a bound file does not fail, unless its caller says that it is to stop.
-/

namespace KotlinTree.Attribution.Setting

variable {s : Setting} {rec : Tasks}

section
variable {id : NodeId}

theorem assignment_composed (h : rec.Composed s) (hf : s.forest.Linked) {a : Assignment}
    (hd : s.forest.data (some id) = .assignment a) :
    Composed s (s.forest.Inside id) (assignment rec a) := by
  have hparts : ∀ x ∈ (NodeData.assignment a).parts, s.forest.Inside id x := fun x hx =>
    hf.inside_of_mem_parts hd hx
  refine (h.typeOf fun x hx => hparts x ?_).seq (h.typeOf fun x hx => hparts x ?_).discard <;>
    simp_all [NodeData.parts]

theorem binary_composed (h : rec.Composed s) (hf : s.forest.Linked) {b : BinaryExpression}
    (hd : s.forest.data (some id) = .binary b) :
    Composed s (s.forest.Inside id) (s.binary rec b) := by
  obtain ⟨hleft, -, hright⟩ := binary_inside hf hd
  unfold binary
  split
  · rename_i hname
    exact infixCall_composed h hf hd (by simpa using hname)
  · split
    · exact (h.typeOf hleft).seq ((h.typeOf hright).seq (.pure _))
    · exact operatorCall_composed h hf hd

theorem elvis_composed (h : rec.Composed s) (hf : s.forest.Linked) {b : BinaryExpression}
    (hd : s.forest.data (some id) = .binary b) :
    Composed s (s.forest.Inside id) (s.elvis rec b) := by
  obtain ⟨hleft, -, hright⟩ := binary_inside hf hd
  exact .bind (h.typeOf hleft) fun _ => .bind (h.typeOf hright) fun _ => .pure _

theorem unary_composed (h : rec.Composed s) (hf : s.forest.Linked) {u : UnaryExpression}
    (hd : s.forest.data (some id) = .unary u) :
    Composed s (s.forest.Inside id) (unary rec u) := by
  unfold unary
  refine .bind (h.typeOf fun x hx => hf.inside_of_mem_parts hd ?_) fun operand => ?_
  · simpa [NodeData.parts] using hx
  · split <;> exact .pure _

theorem typeOperation_composed (h : rec.Composed s) (hf : s.forest.Linked)
    {operation : TypeOperation} (hd : s.forest.data (some id) = .typeOperation operation) :
    Composed s (s.forest.Inside id) (s.typeOperation rec operation) := by
  unfold typeOperation
  refine (h.typeOf fun x hx => hf.inside_of_mem_parts hd ?_).seq ?_
  · simp_all [NodeData.parts]
  refine .bind (typeUse_composed hf fun x hx => hf.inside_of_mem_parts hd ?_) fun target => ?_
  · simp_all [NodeData.parts]
  · split <;> exact .pure _

theorem choice_composed (h : rec.Composed s) (hf : s.forest.Linked) {c : IfExpression}
    (hd : s.forest.data (some id) = .ifExpression c) :
    Composed s (s.forest.Inside id) (s.choice rec c) := by
  have hparts : ∀ x ∈ (NodeData.ifExpression c).parts, s.forest.Inside id x := fun x hx =>
    hf.inside_of_mem_parts hd hx
  unfold choice
  refine (h.typeOf fun x hx => hparts x ?_).seq ?_
  · simp_all [NodeData.parts]
  refine .bind (.inScope _ (h.statement fun x hx => hparts x ?_)) fun left => ?_
  · simp_all [NodeData.parts]
  split
  · exact .pure _
  · refine .bind (.inScope _ (h.statement fun x hx => hparts x ?_)) fun right => .pure _
    simp_all [NodeData.parts]

theorem jump_composed (h : rec.Composed s) (hf : s.forest.Linked) (id : NodeId) :
    Composed s (s.forest.Inside id) (s.jump rec id) := by
  unfold jump
  dsimp only
  split
  · refine (h.typeOf fun x hx => hf.inside_of_mem_children ?_).discard
    exact Array.mem_of_back? hx
  · exact .pure _

theorem lambda_composed (h : rec.Composed s) (hf : s.forest.Linked) {l : Lambda}
    (hd : s.forest.data (some id) = .lambda l) :
    Composed s (s.forest.Inside id) (s.lambda rec l) := by
  have hparts : ∀ x ∈ (NodeData.lambda l).parts, s.forest.Inside id x := fun x hx =>
    hf.inside_of_mem_parts hd hx
  have hparameters : Composed s (s.forest.Inside id) (s.parameters rec none l.parameters) :=
    parameters_composed h hf none fun x hx => hparts x (by simp_all [NodeData.parts])
  have hstatements : Composed s (s.forest.Inside id)
      (s.through (fun (_ : Ty) id => rec.statement (some id)) .unknown l.statements.toList) :=
    .through (fun _ x hx => h.statement fun y hy => hparts y (by simp_all [NodeData.parts])) _
  refine .inScope _ ?_
  split
  · exact (declareLocal_composed _ _).seq (hparameters.seq hstatements.discard)
  · exact hparameters.seq hstatements.discard

end

theorem tokenType_composed {P : NodeId → Prop} {kind : TokenKind} {id : NodeId} (hid : P id)
    (hkind : s.forest.kind? (some id) = some (.token kind)) :
    Composed s P (s.tokenType kind id) := by
  unfold tokenType
  split
  · exact .pure _
  · split
    · rename_i hname
      exact (nameUse_composed hid (hname ▸ hkind)).bind fun q => .pure _
    · exact .pure _

theorem nodeType_composed (h : rec.Composed s) (hf : s.forest.Linked) (kind : NodeKind)
    (id : NodeId) : Composed s (s.forest.Inside id) (s.nodeType rec kind id) := by
  have hself := s.forest.inside_self id
  -- One case for each kind of node; parts are found by the data, which `rename_i` names.
  unfold nodeType
  split
  · exact (accessUse_composed h hf id _).bind fun q => .pure _
  · rename_i hd
    exact call_composed h hf hd
  · exact (thisType?_composed hself).bind fun t => .pure _
  · exact (superType?_composed hf hself).bind fun t => .pure _
  · rename_i hd
    exact h.typeOf fun x hx => hf.inside_of_mem_parts hd (by simpa [NodeData.parts] using hx)
  · rename_i hd
    exact binary_composed h hf hd
  · rename_i hd
    exact elvis_composed h hf hd
  · rename_i hd
    exact unary_composed h hf hd
  · rename_i hd
    exact unary_composed h hf hd
  · rename_i hd
    exact typeOperation_composed h hf hd
  · rename_i hd
    exact typeOperation_composed h hf hd
  · rename_i hd
    exact (lambda_composed h hf hd).seq (.pure _)
  · rename_i hd
    exact choice_composed h hf hd
  · rename_i hd
    refine (h.typeOf fun x hx => hf.inside_of_mem_parts hd ?_).seq (.pure _)
    simpa [NodeData.parts] using hx
  · exact .pure _
  · exact (jump_composed h hf id).seq (.pure _)
  · exact block_composed h hf id
  · rename_i hd
    exact (assignment_composed h hf hd).seq (.pure _)
  · exact .pure _
  · exact indexing_composed h hf id
  · rename_i hd
    exact (callableReference_composed h hf hd).seq (.pure _)
  · exact classUse_composed h hf id
  · exact classUse_composed h hf id
  · exact (function_composed h hf .block id).seq (.pure _)
  · exact (property_composed h hf .block id).seq (.pure _)
  · exact (keptSource_composed h hf id).seq (.pure _)
  · exact .pure _

theorem expression_composed (h : rec.Composed s) (hf : s.forest.Linked) (id : NodeId) :
    Composed s (s.forest.Inside id) (s.expression rec id) := by
  have hself := s.forest.inside_self id
  unfold expression
  refine .bind (.deeper _ (.map some ?_)) fun t => ?_
  · split
    · rename_i hkind
      exact tokenType_composed hself hkind
    · exact nodeType_composed h hf _ id
    · exact .pure _
  · split
    · exact (Composed.recordType hself _).seq (.pure _)
    · exact .pure _

theorem qualifier_composed (h : rec.Composed s) (hf : s.forest.Linked) (id : NodeId) :
    Composed s (s.forest.Inside id) (s.qualifier rec id) := by
  unfold qualifier
  split
  · exact .deeper _ (accessUse_composed h hf id _)
  · rename_i hkind
    exact .deeper _ (nameUse_composed (s.forest.inside_self id) hkind)
  · exact (expression_composed h hf id).bind fun t => .pure _

theorem statement_composed (h : rec.Composed s) (hf : s.forest.Linked) (id : NodeId) :
    Composed s (s.forest.Inside id) (s.statement rec id) := by
  unfold statement
  split
  · exact (declaration_composed h hf .block id).seq (.pure _)
  · split
    · rename_i hd
      exact (assignment_composed h hf hd).seq (.pure _)
    · exact expression_composed h hf id

theorem task_composed (h : rec.Composed s) (hf : s.forest.Linked) : (s.task rec).Composed s
  | .expression id => expression_composed h hf id
  | .qualifier id => qualifier_composed h hf id
  | .statement id => statement_composed h hf id
  | .declaration owner id => declaration_composed h hf owner id

/-- Whatever the parts of a file are, they are composed, however deep they are nested. -/
theorem tasks_composed (hf : s.forest.Linked) (n : Nat) : (s.tasks n).Composed s := by
  induction n with
  | zero => exact fun task => .pure task.nothing
  | succ n ih => exact task_composed ih hf

end KotlinTree.Attribution.Setting

namespace KotlinTree

open Attribution

theorem Attribution.Setting.file_composed {s : Setting} (hf : s.forest.Linked) (root : NodeId) :
    Composed s (s.forest.Inside root) (s.file root) := by
  unfold Setting.file
  split
  · rename_i file hd
    have hparts : ∀ x ∈ (NodeData.sourceFile file).parts, s.forest.Inside root x := fun x hx =>
      hf.inside_of_mem_parts hd hx
    have himport : ∀ x ∈ file.imports.toList, Composed s (s.forest.Inside root) (s.importUse x) := by
      intro x hx
      have hin := hparts x (by simp_all [NodeData.parts])
      exact (Setting.importUse_composed hf x).mono fun _ => hin.trans
    have hdeclaration : ∀ x ∈ file.declarations.toList, Composed s (s.forest.Inside root)
        (s.declaration (s.tasks s.forest.size) (.named s.unit.facade) x) := by
      intro x hx
      have hin := hparts x (by simp_all [NodeData.parts])
      exact (Setting.declaration_composed (Setting.tasks_composed hf _) hf _ x).mono fun _ => hin.trans
    refine (Composed.through (fun _ => himport) _).seq ?_
    exact (Composed.through (fun _ => hdeclaration) _).seq Composed.stopped.discard
  · exact .pure _

/-- A file whose attribution is not told to stop is attributed. -/
theorem attributeUnit_ok (env : Environment) {u : ParsedUnit} (hu : u.forest.Linked)
    (bound : BoundUnit) (stops : Nat → Bool) (hs : ∀ n, stops n = false) :
    ∃ attributed, attributeUnit env u bound stops = .ok attributed := by
  let s : Setting := { forest := u.forest, env, unit := bound, stops }
  have hstopped : (Id.run ((s.file u.root).run {})).2.isStopped = false :=
    (Setting.file_composed (s := s) hu u.root).isStopped hs {} rfl
  have hunit : attributeUnit env u bound stops =
      .ok ((Id.run ((s.file u.root).run {})).2.toFindings.unit u) :=
    if_neg fun h => Bool.false_ne_true (hstopped.symm.trans h)
  exact ⟨_, hunit⟩

/-- A file that is attributed has been gone through to its end, and what is known is what has been found
out then. -/
theorem eq_of_attributeUnit {env : Environment} {u : ParsedUnit} {bound : BoundUnit}
    {stops : Nat → Bool} {attributed : AttributedUnit}
    (h : attributeUnit env u bound stops = .ok attributed) :
    let s : Setting := { forest := u.forest, env, unit := bound, stops }
    let st := (Id.run ((s.file u.root).run {})).2
    st.isStopped = false ∧ attributed = st.toFindings.unit u := by
  intro s st
  have hunit : (if st.isStopped then .error (AttributionError.cancelled bound.fileName)
    else .ok (st.toFindings.unit u)) = Except.ok attributed := h
  split at hunit
  · cases hunit
  · rename_i hs
    cases hunit
    exact ⟨Bool.eq_false_iff.mpr hs, rfl⟩

/-- The uses at a place are among all that have been found, each by its node. -/
theorem Attribution.Findings.mem_uses_of_usesAt {findings : Findings} {place : Place} {id : NodeId}
    {use : NameUse} (h : (findings.usesAt place)[id]? = some use) :
    (place, use) ∈ findings.uses ∧ use.node = id := by
  -- The induction is on the uses, with what holds of the table so far.
  have hall : ∀ (id : NodeId) (use : NameUse), (findings.usesAt place)[id]? = some use →
      (place, use) ∈ findings.uses ∧ use.node = id := by
    unfold Findings.usesAt
    rw [← Array.foldl_toList]
    refine List.foldlRecOn (motive := fun all : Std.HashMap NodeId NameUse =>
      ∀ (id : NodeId) (use : NameUse), all[id]? = some use →
        (place, use) ∈ findings.uses ∧ use.node = id)
      findings.uses.toList _ ?_ fun all hall entry hentry => ?_
    · intro id use hget
      rw [Std.HashMap.getElem?_empty] at hget
      cases hget
    · obtain ⟨at_, name⟩ := entry
      dsimp only
      split
      · rename_i hat
        intro id use hget
        rw [Std.HashMap.getElem?_insert] at hget
        split at hget
        · rename_i hnode
          cases hget
          exact ⟨hat ▸ Array.mem_toList_iff.mp hentry, beq_iff_eq.mp hnode⟩
        · exact hall id use hget
      · exact hall
  exact hall id use h

/-- Files that are bound one by one are attributed one by one. -/
theorem attributeUnits_map (env : Environment) (units : List ParsedUnit)
    (bind : ParsedUnit → BoundUnit) (hb : ∀ u, (bind u).fileName = u.fileName) (stops : Nat → Bool) :
    attributeUnits env units (units.map bind) stops =
      units.map fun u => attributeUnit env u (bind u) stops := by
  refine List.ext_getElem? fun i => ?_
  unfold attributeUnits
  rw [List.getElem?_map, List.getElem?_zipIdx, List.getElem?_map]
  cases hu : units[i]? with
  | none => rfl
  | some u =>
    simp only [Option.map_some, Nat.zero_add, List.getElem?_map, hu]
    rw [if_pos (hb u)]

theorem attributeUnits_ok (env : Environment) {units : List ParsedUnit}
    (hu : ∀ u ∈ units, u.forest.Linked) (bind : ParsedUnit → BoundUnit)
    (hb : ∀ u, (bind u).fileName = u.fileName) (stops : Nat → Bool) (hs : ∀ n, stops n = false) :
    ∀ r ∈ attributeUnits env units (units.map bind) stops, ∃ attributed, r = .ok attributed := by
  rw [attributeUnits_map env units bind hb]
  intro r hr
  obtain ⟨u, hmem, rfl⟩ := List.mem_map.mp hr
  exact attributeUnit_ok env (hu u hmem) (bind u) stops hs

end KotlinTree
