import KotlinTree.Attribution.Call
import KotlinTree.Attribution.Meaning
import KotlinTree.Proofs.Attribution.Curtail

/-!
Written types, names, receivers and imports are attributed without asking whether to stop. Only what an
access is on, or the parts of a call, may be stopped.
-/

namespace KotlinTree.Attribution

/-- The parts of a node are cut short, each from what it is when nothing is stopped. -/
def Tasks.Curtail (stops : Nat → Bool) (rec rec' : Tasks) : Prop :=
  ∀ task : Task, Curtails stops (rec task) (rec' task)

namespace Tasks.Curtail

variable {stops : Nat → Bool} {rec rec' : Tasks}

/-- What may be missing is cut short with what is there. -/
theorem typeOf (h : Tasks.Curtail stops rec rec') (id : Option NodeId) :
    Curtails stops (rec.typeOf id) (rec'.typeOf id) := by
  cases id with
  | none => exact .pure _
  | some id => exact h (.expression id)

theorem statement (h : Tasks.Curtail stops rec rec') (id : Option NodeId) :
    Curtails stops (rec.statement id) (rec'.statement id) := by
  cases id with
  | none => exact .pure _
  | some id => exact h (.statement id)

theorem qualifierOf (h : Tasks.Curtail stops rec rec') (id : NodeId) :
    Curtails stops (rec.qualifierOf id) (rec'.qualifierOf id) :=
  h (.qualifier id)

theorem declaration (h : Tasks.Curtail stops rec rec') (owner : Owner) (id : NodeId) :
    Curtails stops (rec.declaration owner id) (rec'.declaration owner id) :=
  h (.declaration owner id)

theorem types (h : Tasks.Curtail stops rec rec') (ids : List NodeId) :
    Curtails stops (rec.types ids) (rec'.types ids) :=
  .forM fun id => (h.typeOf (some id)).discard

end Tasks.Curtail

namespace Setting

variable {s : Setting}

/-- To record what a name means asks no question. -/
theorem record_steady (place : Place) (node : NodeId) (token : Option NodeId) (access : AccessKind)
    (meaning : Meaning) : Steady (s.record place node token access meaning) := by
  unfold record
  extract_lets rest
  have hrest (u : Unit) : Steady (rest u) :=
    Steady.get.bind fun _ => (Steady.recordType _ _).seq ((Steady.recordUse _ _).seq (.pure _))
  split
  · exact (Steady.report _ _).bind hrest
  · exact hrest ()

theorem recordName_steady (id : NodeId) (meaning : Meaning) : Steady (s.recordName id meaning) :=
  record_steady .reference id (some id) .plain meaning

/-- Nor does a written type. -/
theorem recordWrittenType_steady (id : NodeId) : Steady (s.recordWrittenType id) := by
  unfold recordWrittenType
  refine Steady.get.bind fun st => ?_
  have hrecord : Steady (do recordType id (s.writtenType st id); return s.writtenType st id) :=
    (Steady.recordType _ _).seq (.pure _)
  dsimp only
  split
  · split
    · exact (Steady.report _ _).seq hrecord
    · exact hrecord
  · exact hrecord

/-- Nor do the types inside it. -/
theorem typeUse_steady (id : Option NodeId) : Steady (s.typeUse id) := by
  unfold typeUse
  split
  · exact .pure _
  · refine (recordWrittenType_steady _).bind fun _ => ?_
    exact (Steady.forM fun x => (recordWrittenType_steady x).discard).seq (.pure _)

theorem typeUse?_steady (id : Option NodeId) : Steady (s.typeUse? id) := by
  unfold typeUse?
  split
  · exact .pure _
  · exact (typeUse_steady _).bind fun _ => .pure _

theorem missingReceiver_steady (id : NodeId) (keyword : String) :
    Steady (s.missingReceiver id keyword) :=
  (Steady.report _ _).seq (.recordType _ _)

/-- The word for the current object asks none. -/
theorem thisType?_steady (id : NodeId) : Steady (s.thisType? id) := by
  unfold thisType?
  refine Steady.get.bind fun st => ?_
  split
  · exact (Steady.recordType _ _).seq (.pure _)
  · exact (missingReceiver_steady _ _).seq (.pure _)

/-- Neither does the one for its superclass. -/
theorem superType?_steady (id : NodeId) : Steady (s.superType? id) := by
  unfold superType?
  refine Steady.get.bind fun st => ?_
  split
  · exact (typeUse?_steady _).bind fun _ => (Steady.recordType _ _).seq (.pure _)
  · exact (missingReceiver_steady _ _).seq (.pure _)

/-- What receivers have does not depend on the answers. -/
theorem receiverMember_endless (name : String) (p : Purpose) (reachable sawUnknown : Bool)
    (frames : List Frame) : s.endless.receiverMember name p reachable sawUnknown frames =
      s.receiverMember name p reachable sawUnknown frames := by
  induction frames generalizing reachable sawUnknown with
  | nil => rfl
  | cons frame frames ih =>
    rw [receiverMember, receiverMember]
    simp only [ih]
    rfl

/-- So neither does what a name means. -/
theorem nameMeaning_endless (st : State) (name : String) (p : Purpose) :
    s.endless.nameMeaning st name p = s.nameMeaning st name p := by
  unfold nameMeaning
  rw [receiverMember_endless]
  rfl

/-- What is recorded is the same for any answers. -/
theorem record_curtails (place : Place) (node : NodeId) (token : Option NodeId) (access : AccessKind)
    (meaning : Meaning) : Curtails s.stops (s.record place node token access meaning)
      (s.endless.record place node token access meaning) :=
  .of_steady (record_steady place node token access meaning)

theorem recordName_curtails (id : NodeId) (meaning : Meaning) :
    Curtails s.stops (s.recordName id meaning) (s.endless.recordName id meaning) :=
  .of_steady (recordName_steady id meaning)

/-- A name is looked up in the state that both programs are in. -/
theorem nameUse_curtails (id : NodeId) : Curtails s.stops (s.nameUse id) (s.endless.nameUse id) := by
  unfold nameUse
  refine .get_bind fun st => ?_
  rw [nameMeaning_endless]
  exact recordName_curtails id _

theorem typeUse_curtails (id : Option NodeId) :
    Curtails s.stops (s.typeUse id) (s.endless.typeUse id) :=
  .of_steady (typeUse_steady id)

theorem typeUse?_curtails (id : Option NodeId) :
    Curtails s.stops (s.typeUse? id) (s.endless.typeUse? id) :=
  .of_steady (typeUse?_steady id)

theorem thisType?_curtails (id : NodeId) :
    Curtails s.stops (s.thisType? id) (s.endless.thisType? id) :=
  .of_steady (thisType?_steady id)

theorem superType?_curtails (id : NodeId) :
    Curtails s.stops (s.superType? id) (s.endless.superType? id) :=
  .of_steady (superType?_steady id)

variable {rec rec' : Tasks}

/-- The object of an access is cut short before its name is looked up. -/
theorem accessMeaning_curtails (h : Tasks.Curtail s.stops rec rec') (id : NodeId) (access : Access)
    (p : Purpose) :
    Curtails s.stops (s.accessMeaning rec id access p) (s.endless.accessMeaning rec' id access p) := by
  unfold accessMeaning
  simp only [endless_forest]
  split
  · refine (thisType?_curtails _).bind fun t => ?_
    cases t <;> exact .pure _
  · refine (superType?_curtails _).bind fun t => ?_
    cases t <;> exact .pure _
  · exact (h.qualifierOf _).bind fun q => .pure _
  · exact (h.qualifierOf _).bind fun q => .pure _

/-- An access is recorded even if its object has been cut short. -/
theorem accessUse_curtails (h : Tasks.Curtail s.stops rec rec') (id : NodeId) (p : Purpose) :
    Curtails s.stops (s.accessUse rec id p) (s.endless.accessUse rec' id p) := by
  unfold accessUse
  simp only [endless_forest]
  split
  · refine (accessMeaning_curtails h _ _ _).bind fun meaning => ?_
    exact record_curtails _ _ _ _ meaning
  · exact .pure _

/-- A path is recorded from its first name on. -/
theorem importPath_curtails (id : NodeId) :
    Curtails s.stops (s.importPath id) (s.endless.importPath id) := by
  induction id using Nat.strongRecOn with
  | ind id ih =>
    rw [importPath, importPath]
    simp only [endless_forest]
    refine .ite (fun _ => recordName_curtails _ _) fun _ => ?_
    split
    · split
      · rename_i hlt
        exact (ih _ hlt).bind fun _ => record_curtails _ _ _ _ _
      · exact .pure _
    · exact .pure _

/-- So is an import. -/
theorem importUse_curtails (id : NodeId) :
    Curtails s.stops (s.importUse id) (s.endless.importUse id) := by
  unfold importUse
  simp only [endless_forest]
  split
  · split
    · exact (importPath_curtails _).discard
    · exact .pure _
  · exact .pure _

/-- An argument is recorded after its value. -/
theorem argument_curtails (h : Tasks.Curtail s.stops rec rec') (id : NodeId) :
    Curtails s.stops (s.argument rec id) (s.endless.argument rec' id) := by
  unfold argument
  simp only [endless_forest]
  split
  · exact (h.typeOf _).bind fun t => .of_steady (.recordType id t)
  · exact .pure _
  · exact (h.typeOf (some id)).discard

/-- What is called may be cut short if it is no name. -/
theorem calleeType_curtails (h : Tasks.Curtail s.stops rec rec') (callee : NodeId) (count : Nat) :
    Curtails s.stops (s.calleeType rec callee count) (s.endless.calleeType rec' callee count) := by
  unfold calleeType
  simp only [endless_forest, nameMeaning_endless]
  split
  · refine .get_bind fun st => ?_
    exact (recordName_curtails _ _).bind fun q => .pure _
  · exact (accessUse_curtails h callee _).bind fun q => .pure _
  · exact (h.typeOf (some callee)).seq (.pure _)

/-- So may the arguments of a call, in their order. -/
theorem call_curtails (h : Tasks.Curtail s.stops rec rec') (call : Call) :
    Curtails s.stops (s.call rec call) (s.endless.call rec' call) := by
  unfold Setting.call
  refine (calleeType_curtails h _ _).bind fun t => ?_
  exact (Curtails.forM fun x => argument_curtails h x).seq ((h.typeOf _).seq (.pure t))

/-- What a call of an operator means is the same for any answers. -/
theorem impliedCallType_curtails (receiver : Ty) (method : String) (count : Nat) :
    Curtails s.stops (s.impliedCallType receiver method count)
      (s.endless.impliedCallType receiver method count) := by
  have hsteady : Steady (s.impliedCallType receiver method count) := by
    unfold impliedCallType
    split
    · exact Steady.get.bind fun _ => .pure _
    · exact .pure _
  exact .of_steady hsteady

/-- Infix calls are cut short in one of their operands. -/
theorem infixCall_curtails (h : Tasks.Curtail s.stops rec rec') (binary : BinaryExpression) :
    Curtails s.stops (s.infixCall rec binary) (s.endless.infixCall rec' binary) := by
  unfold infixCall
  refine (h.typeOf _).bind fun receiver => ?_
  refine (recordName_curtails _ _).bind fun q => ?_
  exact (h.typeOf _).seq (.pure _)

/-- So are operators. -/
theorem operatorCall_curtails (h : Tasks.Curtail s.stops rec rec') (binary : BinaryExpression) :
    Curtails s.stops (s.operatorCall rec binary) (s.endless.operatorCall rec' binary) := by
  unfold operatorCall
  refine (h.typeOf _).bind fun receiver => ?_
  refine (h.typeOf _).seq ?_
  split
  · exact impliedCallType_curtails _ _ _
  · exact .pure _

/-- Indices are cut short one after another. -/
theorem indexing_curtails (h : Tasks.Curtail s.stops rec rec') (id : NodeId) :
    Curtails s.stops (s.indexing rec id) (s.endless.indexing rec' id) := by
  unfold indexing
  simp only [endless_forest]
  split
  · exact .pure _
  · refine (h.typeOf _).bind fun t => ?_
    exact (h.types _).seq (impliedCallType_curtails t _ _)

/-- What a reference is on may be cut short, and then its name is looked up on what is known of it. -/
theorem callableReference_curtails (h : Tasks.Curtail s.stops rec rec')
    (reference : CallableReference) :
    Curtails s.stops (s.callableReference rec reference) (s.endless.callableReference rec' reference) := by
  unfold callableReference
  split
  · rename_i receiver name _ _
    refine .ite (fun _ => ?_) fun _ => .pure _
    refine (h.qualifierOf receiver).bind fun q => ?_
    have hsame : s.endless.memberMeaning q (s.endless.forest.nameText (some name)) .any =
        s.memberMeaning q (s.forest.nameText (some name)) .any := rfl
    rw [hsame]
    split
    · exact (recordName_curtails _ _).discard
    · exact .pure _
  · exact .pure _

end Setting

end KotlinTree.Attribution
