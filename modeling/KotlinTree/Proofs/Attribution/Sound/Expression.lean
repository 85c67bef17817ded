import KotlinTree.Attribution.Expression
import KotlinTree.Proofs.Attribution.Sound.Declaration
import KotlinTree.Proofs.Attribution.Expression

/-!
Expressions and statements leave what is known sound, and with them all parts of a file do. What is known
about a file in the end is sound: all types are of classes among the names that the file starts from, and
every field or method with an owner is a member that its name can mean.
-/

namespace KotlinTree.Attribution.Setting

variable {s : Setting} {names : String → Prop} {rec : Tasks}

theorem assignment_keeps (h : rec.Sound s names) (a : Assignment) :
    Keeps s names (assignment rec a) fun _ => True :=
  (h.typeOf _).seq (h.typeOf _).discard

theorem binary_keeps (h : rec.Sound s names) (hc : s.Closed names) (b : BinaryExpression) :
    Keeps s names (s.binary rec b) (Ty.Within names) := by
  unfold binary
  split
  · exact infixCall_keeps h hc b
  · split
    · exact (h.typeOf _).seq ((h.typeOf _).seq (.pure (Ty.within_of hc.boolean)))
    · exact operatorCall_keeps h hc b

theorem elvis_keeps (h : rec.Sound s names) (hc : s.Closed names) (b : BinaryExpression) :
    Keeps s names (s.elvis rec b) (Ty.Within names) := by
  refine (h.typeOf _).bind fun left hleft => ?_
  refine (h.typeOf _).bind fun right hright => .pure ?_
  exact Environment.leastUpperBound_within hc.supertype hc.any hleft.notNull hright

theorem unary_keeps (h : rec.Sound s names) (hc : s.Closed names) (u : UnaryExpression) :
    Keeps s names (unary rec u) (Ty.Within names) := by
  refine (h.typeOf _).bind fun operand hoperand => ?_
  split
  · exact .pure (Ty.within_of hc.boolean)
  · exact .pure hoperand.notNull
  · exact .pure hoperand

theorem typeOperation_keeps (h : rec.Sound s names) (hc : s.Closed names)
    (operation : TypeOperation) :
    Keeps s names (s.typeOperation rec operation) (Ty.Within names) := by
  refine (h.typeOf _).seq ((typeUse_keeps hc _).bind fun target htarget => ?_)
  split
  · exact .pure (Ty.within_of hc.boolean)
  · exact .pure (Ty.within_of hc.boolean)
  · exact .pure htarget.nullable
  · exact .pure htarget

theorem choice_keeps (h : rec.Sound s names) (hc : s.Closed names) (c : IfExpression) :
    Keeps s names (s.choice rec c) (Ty.Within names) := by
  refine (h.typeOf _).seq ?_
  refine (Keeps.inScope LocalScope.within_empty (h.statement _)).bind fun left hleft => ?_
  split
  · exact .pure (Ty.within_of hc.unit)
  · refine (Keeps.inScope LocalScope.within_empty (h.statement _)).bind fun right hright => ?_
    exact .pure (Environment.leastUpperBound_within hc.supertype hc.any hleft hright)

theorem jump_keeps (h : rec.Sound s names) (id : NodeId) :
    Keeps s names (s.jump rec id) fun _ => True := by
  unfold jump
  dsimp only
  split
  · exact (h.typeOf _).discard
  · exact .pure trivial

theorem lambda_keeps (h : rec.Sound s names) (hc : s.Closed names) (l : Lambda) :
    Keeps s names (s.lambda rec l) fun _ => True := by
  have hstatements : Keeps s names
      (s.through (fun (_ : Ty) id => rec.statement (some id)) .unknown l.statements.toList)
      (Ty.Within names) :=
    .through (fun _ _ x _ => h.statement (some x)) Ty.within_unknown
  have hbody : Keeps s names (do
      s.parameters rec none l.parameters
      let _ ← s.through (fun (_ : Ty) id => rec.statement (some id)) .unknown l.statements.toList)
      fun _ => True :=
    (parameters_keeps h hc none _).seq hstatements.discard
  refine .inScope LocalScope.within_empty ?_
  split
  · exact (Keeps.declareLocal _ Ty.within_unknown).seq hbody
  · exact hbody

theorem tokenType_keeps (hc : s.Closed names) (kind : TokenKind) (id : NodeId) :
    Keeps s names (s.tokenType kind id) (Ty.Within names) := by
  unfold tokenType
  split
  · rename_i t ht
    exact .pure (hc.literal _ t ht)
  · split
    · exact (nameUse_keeps hc id).bind fun q hq => .pure (hc.valueType_within hq)
    · exact .pure Ty.within_unknown

theorem nodeType_keeps (h : rec.Sound s names) (hc : s.Closed names) (kind : NodeKind)
    (id : NodeId) : Keeps s names (s.nodeType rec kind id) (Ty.Within names) := by
  -- Three types stand for themselves, whatever is attributed.
  have hunknown : Ty.unknown.Within names := Ty.within_unknown
  have hunit : (Ty.of Ty.unitName).Within names := Ty.within_of hc.unit
  have hnothing : (Ty.nothing false).Within names := Ty.within_nothing hc.nothing false
  unfold nodeType
  split
  · exact (accessUse_keeps h hc id _).bind fun q hq => .pure (hc.valueType_within hq)
  · exact call_keeps h hc _
  · exact (thisType?_keeps id).bind fun t ht => .pure (Ty.within_getD ht hunknown)
  · exact (superType?_keeps hc id).bind fun t ht => .pure (Ty.within_getD ht hunknown)
  · exact h.typeOf _
  · exact binary_keeps h hc _
  · exact elvis_keeps h hc _
  · exact unary_keeps h hc _
  · exact unary_keeps h hc _
  · exact typeOperation_keeps h hc _
  · exact typeOperation_keeps h hc _
  · exact (lambda_keeps h hc _).seq (.pure hunknown)
  · exact choice_keeps h hc _
  · exact (h.typeOf _).seq (.pure hnothing)
  · exact .pure hnothing
  · exact (jump_keeps h id).seq (.pure hnothing)
  · exact block_keeps h hc id
  · exact (assignment_keeps h _).seq (.pure hunit)
  · exact .pure hunit
  · exact indexing_keeps h hc id
  · exact (callableReference_keeps h hc _).seq (.pure hunknown)
  · exact classUse_keeps h hc id
  · exact classUse_keeps h hc id
  · exact (function_keeps h hc .block id).seq (.pure hunknown)
  · exact (property_keeps h hc .block id).seq (.pure hunit)
  · exact (keptSource_keeps h hc id).seq (.pure hunknown)
  · exact .pure hunknown

theorem expression_keeps (h : rec.Sound s names) (hc : s.Closed names) (id : NodeId) :
    Keeps s names (s.expression rec id) (Ty.Within names) := by
  unfold expression
  -- A node that is nested too deep yields no type, and none is recorded for it.
  refine Keeps.bind (P := fun t? : Option Ty => ∀ t, t? = some t → t.Within names)
    (.deeper (fun t ht => absurd ht (Option.some_ne_none t).symm)
      (.map (P := Ty.Within names) ?_ fun t ht t' ht' => Option.some.inj ht' ▸ ht)) fun t? ht => ?_
  · split
    · exact tokenType_keeps hc _ id
    · exact nodeType_keeps h hc _ id
    · exact .pure Ty.within_unknown
  · cases t? with
    | none => exact .pure Ty.within_unknown
    | some t => exact (Keeps.recordType id (ht t rfl)).seq (.pure (ht t rfl))

theorem qualifier_keeps (h : rec.Sound s names) (hc : s.Closed names) (id : NodeId) :
    Keeps s names (s.qualifier rec id) fun q => q.type.Within names := by
  unfold qualifier
  split
  · exact .deeper Ty.within_unknown (accessUse_keeps h hc id _)
  · exact .deeper Ty.within_unknown (nameUse_keeps hc id)
  · exact (expression_keeps h hc id).bind fun t ht => .pure ht

theorem statement_keeps (h : rec.Sound s names) (hc : s.Closed names) (id : NodeId) :
    Keeps s names (s.statement rec id) (Ty.Within names) := by
  unfold statement
  split
  · exact (declaration_keeps h hc .block id).seq (.pure (Ty.within_of hc.unit))
  · split
    · exact (assignment_keeps h _).seq (.pure (Ty.within_of hc.unit))
    · exact expression_keeps h hc id

theorem task_keeps (h : rec.Sound s names) (hc : s.Closed names) : (s.task rec).Sound s names
  | .expression id => expression_keeps h hc id
  | .qualifier id => qualifier_keeps h hc id
  | .statement id => statement_keeps h hc id
  | .declaration owner id => declaration_keeps h hc owner id

/-- However deep the parts of a file are nested, they leave what is known sound. -/
theorem tasks_sound (hc : s.Closed names) (n : Nat) : (s.tasks n).Sound s names := by
  induction n with
  | zero =>
    intro task
    cases task with
    | expression id => exact .pure Ty.within_unknown
    | qualifier id => exact .pure Ty.within_unknown
    | statement id => exact .pure Ty.within_unknown
    | declaration owner id => exact .pure trivial
  | succ n ih => exact task_keeps ih hc

end KotlinTree.Attribution.Setting

namespace KotlinTree
open Attribution

/-- A file uses a name like this, in an access or alone. -/
def AttributedUnit.Uses (u : AttributedUnit) (use : NameUse) : Prop :=
  ∃ id, u.access? id = some use ∨ u.reference? id = some use

/-- What is known about a file is sound. -/
structure AttributedUnit.Sound (u : AttributedUnit) (s : Setting) (names : String → Prop) :
    Prop where
  types : ∀ (id : NodeId) (t : Ty), u.types[id]? = some t → t.Within names
  uses : ∀ use, u.Uses use → s.FitsUse names use
  declared : ∀ v ∈ u.declared, v.type.Within names

namespace Attribution

variable {s : Setting} {names : String → Prop}

theorem Setting.file_keeps (hc : s.Closed names) (root : NodeId) :
    Keeps s names (s.file root) fun _ => True := by
  unfold Setting.file
  split
  · rename_i file _
    have hinside := Setting.tasks_sound hc s.forest.size
    -- Imports come first, and declarations find what these have left.
    have himport (_ : Unit) (_ : True) (x : NodeId) (_ : x ∈ file.imports.toList) :
        Keeps s names (s.importUse x) fun _ => True := Setting.importUse_keeps hc x
    have hdeclaration (_ : Unit) (_ : True) (x : NodeId) (_ : x ∈ file.declarations.toList) :
        Keeps s names (s.declaration (s.tasks s.forest.size) (.named s.unit.facade) x)
          fun _ => True :=
      Setting.declaration_keeps hinside hc _ x
    exact (Keeps.through himport trivial).seq
      ((Keeps.through hdeclaration trivial).seq Keeps.stopped.discard)
  · exact .pure trivial

theorem State.Sound.unit {st : State} (h : st.Sound s names) (u : ParsedUnit) :
    (st.toFindings.unit u).Sound s names where
  types := by
    change ∀ (id : NodeId) (t : Ty), (st.types.foldl (fun all entry => all.insert entry.1 entry.2)
      (∅ : Std.HashMap NodeId Ty))[id]? = some t → t.Within names
    rw [← Array.foldl_toList]
    refine List.foldlRecOn (motive := fun all : Std.HashMap NodeId Ty =>
      ∀ (id : NodeId) (t : Ty), all[id]? = some t → t.Within names)
      st.types.toList _ ?_ fun all hall entry hentry => ?_
    · intro id t hget
      rw [Std.HashMap.getElem?_empty] at hget
      cases hget
    · exact forall_getElem?_insert hall _ (h.types entry (Array.mem_toList_iff.mp hentry))
  uses := by
    rintro use ⟨id, haccess | hreference⟩
    · exact h.uses _ (Findings.mem_uses_of_usesAt haccess).1
    · exact h.uses _ (Findings.mem_uses_of_usesAt hreference).1
  declared v hv := h.declared v (Array.mem_toList_iff.mp hv)

end Attribution

/-- What is known about a file that has been attributed is sound. -/
theorem attributeUnit_sound {env : Environment} {u : ParsedUnit} {bound : BoundUnit}
    {stops : Nat → Bool} {attributed : AttributedUnit} {names : String → Prop}
    (hc : Setting.Closed { forest := u.forest, env, unit := bound, stops } names)
    (h : attributeUnit env u bound stops = .ok attributed) :
    attributed.Sound { forest := u.forest, env, unit := bound, stops } names := by
  obtain ⟨hend, -⟩ := Setting.file_keeps hc u.root {} State.sound_empty
  obtain ⟨-, rfl⟩ := eq_of_attributeUnit h
  exact hend.unit u

end KotlinTree
