import KotlinTree.Attribution.Call
import KotlinTree.Attribution.Declaration
import KotlinTree.Proofs.Attribution.Balance

/-!
Written types, names, receivers and accesses leave their surroundings as they are, and calls, declarations
and source that is kept as it is do if their parts do. The scope of a constructor is left before the
members of the class are come to, and entered again for some of them.
-/

namespace KotlinTree.Attribution

/-- The parts of a node leave their surroundings as they are, and others do the same where they are not too
deep. -/
def Tasks.Balance (rec rec' : Tasks) : Prop := ∀ task : Task, Balanced (rec task) (rec' task)

namespace Tasks.Balance

variable {rec rec' : Tasks}

/-- What may be missing is attributed in balance, if it is there. -/
theorem typeOf (h : Tasks.Balance rec rec') (id : Option NodeId) :
    Balanced (rec.typeOf id) (rec'.typeOf id) := by
  cases id with
  | none => exact .pure _
  | some id => exact h (.expression id)

/-- So is a statement that may be missing. -/
theorem statement (h : Tasks.Balance rec rec') (id : Option NodeId) :
    Balanced (rec.statement id) (rec'.statement id) := by
  cases id with
  | none => exact .pure _
  | some id => exact h (.statement id)

/-- So is what a member is looked up on. -/
theorem qualifierOf (h : Tasks.Balance rec rec') (id : NodeId) :
    Balanced (rec.qualifierOf id) (rec'.qualifierOf id) :=
  h (.qualifier id)

/-- So is a declaration. -/
theorem declaration (h : Tasks.Balance rec rec') (owner : Owner) (id : NodeId) :
    Balanced (rec.declaration owner id) (rec'.declaration owner id) :=
  h (.declaration owner id)

/-- So are expressions one after another. -/
theorem types (h : Tasks.Balance rec rec') (ids : List NodeId) :
    Balanced (rec.types ids) (rec'.types ids) :=
  .forM fun id => (h.typeOf (some id)).discard

end Tasks.Balance

namespace Setting

variable {s : Setting} {rec rec' : Tasks}

/-- To record what a node means opens and closes nothing. -/
theorem record_balanced (place : Place) (node : NodeId) (token : Option NodeId) (access : AccessKind)
    (meaning : Meaning) :
    Balanced (s.record place node token access meaning) (s.record place node token access meaning) := by
  unfold record
  extract_lets rest
  have hrest (u : Unit) : Balanced (rest u) (rest u) :=
    .get_bind fun _ => (Balanced.recordType _ _).seq ((Balanced.recordUse _ _).seq (.pure _))
  split
  · exact (Balanced.report _ _).bind hrest
  · exact hrest ()

/-- A name alone is recorded like any node. -/
theorem recordName_balanced (id : NodeId) (meaning : Meaning) :
    Balanced (s.recordName id meaning) (s.recordName id meaning) :=
  record_balanced .reference id (some id) .plain meaning

/-- It is looked up in the state as it is, which is recorded and left. -/
theorem nameUse_balanced (id : NodeId) : Balanced (s.nameUse id) (s.nameUse id) :=
  .get_bind fun _ => recordName_balanced id _

/-- A written type reads what is open and opens nothing. -/
theorem recordWrittenType_balanced (id : NodeId) :
    Balanced (s.recordWrittenType id) (s.recordWrittenType id) := by
  unfold recordWrittenType
  refine .get_bind fun st => ?_
  have hrecord : Balanced (do recordType id (s.writtenType st id); return s.writtenType st id)
      (do recordType id (s.writtenType st id); return s.writtenType st id) :=
    (Balanced.recordType _ _).seq (.pure _)
  dsimp only
  split
  · split
    · exact (Balanced.report _ _).seq hrecord
    · exact hrecord
  · exact hrecord

/-- The types inside it are recorded one after another. -/
theorem typeUse_balanced (id : Option NodeId) : Balanced (s.typeUse id) (s.typeUse id) := by
  unfold typeUse
  split
  · exact .pure _
  · refine (recordWrittenType_balanced _).bind fun _ => ?_
    exact (Balanced.forM fun x => (recordWrittenType_balanced x).discard).seq (.pure _)

/-- A type that may be missing is recorded if it is there. -/
theorem typeUse?_balanced (id : Option NodeId) : Balanced (s.typeUse? id) (s.typeUse? id) := by
  unfold typeUse?
  split
  · exact .pure _
  · exact (typeUse_balanced _).bind fun _ => .pure _

/-- A receiver that is missing is reported. -/
theorem missingReceiver_balanced (id : NodeId) (keyword : String) :
    Balanced (s.missingReceiver id keyword) (s.missingReceiver id keyword) :=
  (Balanced.report _ _).seq (.recordType _ _)

/-- What the word for the current object means is read off the receivers. -/
theorem thisType?_balanced (id : NodeId) : Balanced (s.thisType? id) (s.thisType? id) := by
  unfold thisType?
  refine .get_bind fun st => ?_
  split
  · exact (Balanced.recordType _ _).seq (.pure _)
  · exact (missingReceiver_balanced _ _).seq (.pure _)

/-- So is what the word for its superclass means, which may have a written type. -/
theorem superType?_balanced (id : NodeId) : Balanced (s.superType? id) (s.superType? id) := by
  unfold superType?
  refine .get_bind fun st => ?_
  split
  · exact (typeUse?_balanced _).bind fun _ => (Balanced.recordType _ _).seq (.pure _)
  · exact (missingReceiver_balanced _ _).seq (.pure _)

/-- The object of an access is attributed before its name. -/
theorem accessMeaning_balanced (h : Tasks.Balance rec rec') (id : NodeId) (access : Access)
    (p : Purpose) : Balanced (s.accessMeaning rec id access p) (s.accessMeaning rec' id access p) := by
  unfold accessMeaning
  dsimp only
  split
  · refine (thisType?_balanced _).bind fun t => ?_
    cases t <;> exact .pure _
  · refine (superType?_balanced _).bind fun t => ?_
    cases t <;> exact .pure _
  · exact (h.qualifierOf _).bind fun q => .pure _
  · exact (h.qualifierOf _).bind fun q => .pure _

/-- Then the access is recorded. -/
theorem accessUse_balanced (h : Tasks.Balance rec rec') (id : NodeId) (p : Purpose) :
    Balanced (s.accessUse rec id p) (s.accessUse rec' id p) := by
  unfold accessUse
  split
  · exact (accessMeaning_balanced h _ _ _).bind fun meaning => record_balanced _ _ _ _ meaning
  · exact .pure _

/-- An argument is attributed and recorded. -/
theorem argument_balanced (h : Tasks.Balance rec rec') (id : NodeId) :
    Balanced (s.argument rec id) (s.argument rec' id) := by
  unfold argument
  split
  · exact (h.typeOf _).bind fun t => .recordType id t
  · exact .pure _
  · exact (h.typeOf (some id)).discard

/-- What is called is a name, an access or any expression. -/
theorem calleeType_balanced (h : Tasks.Balance rec rec') (callee : NodeId) (count : Nat) :
    Balanced (s.calleeType rec callee count) (s.calleeType rec' callee count) := by
  unfold calleeType
  split
  · exact .get_bind fun st => (recordName_balanced _ _).bind fun q => .pure _
  · exact (accessUse_balanced h callee _).bind fun q => .pure _
  · exact (h.typeOf (some callee)).seq (.pure _)

/-- The arguments of a call come after what is called. -/
theorem call_balanced (h : Tasks.Balance rec rec') (call : Call) :
    Balanced (s.call rec call) (s.call rec' call) := by
  unfold Setting.call
  refine (calleeType_balanced h _ _).bind fun t => ?_
  exact (Balanced.forM fun x => argument_balanced h x).seq ((h.typeOf _).seq (.pure t))

/-- A call whose name is not written is looked up and not recorded. -/
theorem impliedCallType_balanced (receiver : Ty) (method : String) (count : Nat) :
    Balanced (s.impliedCallType receiver method count) (s.impliedCallType receiver method count) := by
  unfold impliedCallType
  split
  · exact .get_bind fun _ => .pure _
  · exact .pure _

/-- Both operands of an infix call are attributed, and its name between them. -/
theorem infixCall_balanced (h : Tasks.Balance rec rec') (binary : BinaryExpression) :
    Balanced (s.infixCall rec binary) (s.infixCall rec' binary) := by
  unfold infixCall
  refine (h.typeOf _).bind fun receiver => ?_
  refine (recordName_balanced _ _).bind fun q => ?_
  exact (h.typeOf _).seq (.pure _)

/-- Both operands of an operator are attributed before it is looked up. -/
theorem operatorCall_balanced (h : Tasks.Balance rec rec') (binary : BinaryExpression) :
    Balanced (s.operatorCall rec binary) (s.operatorCall rec' binary) := by
  unfold operatorCall
  refine (h.typeOf _).bind fun receiver => ?_
  refine (h.typeOf _).seq ?_
  split
  · exact impliedCallType_balanced _ _ _
  · exact .pure _

/-- Indices are attributed after the value that they are applied to. -/
theorem indexing_balanced (h : Tasks.Balance rec rec') (id : NodeId) :
    Balanced (s.indexing rec id) (s.indexing rec' id) := by
  unfold indexing
  split
  · exact .pure _
  · refine (h.typeOf _).bind fun t => ?_
    exact (h.types _).seq (impliedCallType_balanced t _ _)

/-- What a reference is on is attributed before its name. -/
theorem callableReference_balanced (h : Tasks.Balance rec rec') (reference : CallableReference) :
    Balanced (s.callableReference rec reference) (s.callableReference rec' reference) := by
  unfold callableReference
  split
  · split
    · refine (h.qualifierOf _).bind fun q => ?_
      split
      · exact (recordName_balanced _ _).discard
      · exact .pure _
    · exact .pure _
  · exact .pure _

/-- The scope of a block is closed at its end. -/
theorem block_balanced (h : Tasks.Balance rec rec') (id : NodeId) :
    Balanced (s.block rec id) (s.block rec' id) := by
  unfold block
  split
  · refine (Balanced.inScope _ (.through (fun _ x => h.statement (some x)) _)).bind fun last => ?_
    exact (Balanced.recordType id last).seq (.pure last)
  · exact .pure _

/-- A parameter is declared after its type and its default value. -/
theorem parameter_balanced (h : Tasks.Balance rec rec') (property : Option Owner) (id : NodeId) :
    Balanced (s.parameter rec property id) (s.parameter rec' property id) := by
  unfold parameter
  split
  · refine (typeUse_balanced _).bind fun written => ?_
    refine (h.typeOf _).seq ((Balanced.declareLocal _ _).seq ?_)
    have hrecord (t : Ty) : Balanced (do recordType id t; return t) (do recordType id t; return t) :=
      (Balanced.recordType id t).seq (.pure t)
    exact .ite ((Balanced.recordVariable _).seq (hrecord _)) (hrecord _)
  · exact .pure _

/-- Parameters are declared one after another. -/
theorem parameters_balanced (h : Tasks.Balance rec rec') (property : Option Owner)
    (ids : Array NodeId) :
    Balanced (s.parameters rec property ids) (s.parameters rec' property ids) :=
  .forM fun x => (parameter_balanced h property x).discard

/-- The body of a function is a block or an expression. -/
theorem body_balanced (h : Tasks.Balance rec rec') (d : FunctionDeclaration) :
    Balanced (s.body rec d) (s.body rec' d) := by
  unfold body
  split
  · exact .pure _
  · split
    · exact h.typeOf _
    · exact (block_balanced h _).seq (.pure _)

/-- What a constructor hands on is attributed before its body. -/
theorem delegation_balanced (h : Tasks.Balance rec rec') (id : NodeId) (body : Option NodeId) :
    Balanced (s.delegation rec id body) (s.delegation rec' id body) := by
  unfold delegation
  split
  · exact h.types _
  · exact .pure _

/-- A function closes what it opens: its type parameters, its receiver and the scope of its parameters.
-/
theorem function_balanced (h : Tasks.Balance rec rec') (owner : Owner) (id : NodeId) :
    Balanced (s.function rec owner id) (s.function rec' owner id) := by
  unfold function
  split
  · rename_i d _
    refine .withTypeParameters _ ?_
    refine (typeUse?_balanced _).bind fun receiver => (typeUse?_balanced _).bind fun result => ?_
    extract_lets rest rest'
    -- What follows is the same, whether the function has been declared in a block before or not.
    have hrest (u : Unit) : Balanced (rest u) (rest' u) := by
      refine (Balanced.inScope _ ((parameters_balanced h none _).seq (.inFrame _
        ((delegation_balanced h id _).seq (body_balanced h d))))).bind fun value => ?_
      split
      · split
        · exact .declareLocalFunction _ _
        · split
          · split
            · exact .learn _ _ _
            · exact .pure _
          · exact .pure _
      · exact .pure _
    split
    · exact (Balanced.declareLocalFunction _ _).bind hrest
    · exact hrest ()
  · exact .pure _

/-- A property is declared where it stands. -/
theorem declareProperty_balanced (owner : Owner) (isWritten : Bool) (name : String) (type : Ty)
    (node : NodeId) : Balanced (declareProperty owner isWritten name type node)
      (declareProperty owner isWritten name type node) := by
  unfold declareProperty
  split
  · split
    · exact (Balanced.learn _ _ _).seq (.recordVariable _)
    · exact .recordVariable _
  · exact .recordVariable _
  · exact (Balanced.declareLocal _ _).seq (.recordVariable _)

/-- An accessor closes the scope that its parameter is declared in. -/
theorem accessor_balanced (h : Tasks.Balance rec rec') (type : Ty) (id : NodeId) :
    Balanced (s.accessor rec type id) (s.accessor rec' type id) := by
  unfold accessor
  split
  · rename_i d _
    refine .inScope _ ((Balanced.declareLocal _ _).seq ?_)
    refine (Balanced.forM fun x => ?_).seq ?_
    · refine (parameter_balanced h none x).bind fun t => ?_
      split
      · split
        · exact .declareLocal _ _
        · exact .pure _
      · exact .pure _
    · exact (typeUse_balanced _).seq (body_balanced h d).discard
  · exact .pure _

/-- The names of a destructured value are declared one after another. -/
theorem destructuring_balanced (id : NodeId) : Balanced (s.destructuring id) (s.destructuring id) :=
  .forM fun _ => (Balanced.declareLocal _ _).seq (.recordVariable _)

/-- A property closes its type parameters and its receiver before it is declared. -/
theorem property_balanced (h : Tasks.Balance rec rec') (owner : Owner) (id : NodeId) :
    Balanced (s.property rec owner id) (s.property rec' owner id) := by
  unfold property
  split
  · refine .withTypeParameters _ ?_
    refine (typeUse?_balanced _).bind fun receiver => (typeUse?_balanced _).bind fun written => ?_
    refine Balanced.bind (.inFrame _ ?_) fun type => ?_
    · refine (h.typeOf _).bind fun initial => ?_
      exact (h.typeOf _).seq ((Balanced.forM fun x => accessor_balanced h _ x).seq (.pure _))
    · split
      · exact declareProperty_balanced _ _ _ type id
      · exact destructuring_balanced id
  · exact .pure _

/-- The arguments of a supertype come after its type. -/
theorem supertype_balanced (h : Tasks.Balance rec rec') (id : NodeId) :
    Balanced (s.supertype rec id) (s.supertype rec' id) := by
  unfold supertype
  split
  · refine (typeUse_balanced _).bind fun t => ?_
    exact (Balanced.forM fun x => argument_balanced h x).seq ((h.typeOf _).seq (.pure t))
  · exact .pure _

/-- Where a member sees the parameters of the constructor, it does so in a scope of its own. -/
theorem members_balanced (h : Tasks.Balance rec rec') (owner : Owner) (constructorScope : LocalScope)
    (ids : Array NodeId) : Balanced (s.members rec owner constructorScope ids)
      (s.members rec' owner constructorScope ids) := by
  unfold members
  refine .through (fun _ x => ?_) ()
  have hdeclaration := h.declaration owner x
  split
  · exact .inScope _ hdeclaration
  · exact .inScope _ hdeclaration
  · exact hdeclaration

/-- A class closes what it opens: its type parameters, its name, the scope of its constructor and its
own receiver. -/
theorem classUse_balanced (h : Tasks.Balance rec rec') (id : NodeId) :
    Balanced (s.classUse rec id) (s.classUse rec' id) := by
  unfold classUse
  split
  · rename_i d _
    refine .withTypeParameters _ (.inClass _ ?_)
    have hsupertypes : Balanced (d.supertypes.toList.mapM (s.supertype rec))
        (d.supertypes.toList.mapM (s.supertype rec')) := .mapM fun x => supertype_balanced h x
    have hmembers (frame : Frame) (owner : Owner) (scope : LocalScope) (value : Ty) :=
      (Balanced.inFrame (some frame) (members_balanced (s := s) h owner scope
        (s.forest.classMembers d.body))).seq (.pure value)
    split
    · rename_i parameters _
      have hparameters := (parameters_balanced (s := s) h
        (some ((s.unit.classNames.lookup id).map Owner.named |>.getD .anonymous)) parameters).seq
        hsupertypes
      simpa only [bind_assoc] using hparameters.collect fun supertypes scope => hmembers _ _ scope _
    · exact hsupertypes.collect fun supertypes scope => hmembers _ _ scope _
  · exact .pure _

/-- In what is kept as it is, declarations and expressions are attributed one after another. -/
theorem keptSource_balanced (h : Tasks.Balance rec rec') (id : NodeId) :
    Balanced (s.keptSource rec id) (s.keptSource rec' id) := by
  refine .forM fun child => ?_
  split
  · exact h.declaration .block child
  · exact h.declaration .block child
  · exact h.declaration .block child
  · exact h.declaration .block child
  · exact (typeUse_balanced _).discard
  · exact (h.typeOf _).discard
  · exact .pure _

/-- Each kind of declaration is balanced. -/
theorem declaration_balanced (h : Tasks.Balance rec rec') (owner : Owner) (id : NodeId) :
    Balanced (s.declaration rec owner id) (s.declaration rec' owner id) := by
  unfold declaration
  split
  · exact (classUse_balanced h id).discard
  · exact (classUse_balanced h id).discard
  · exact function_balanced h owner id
  · exact function_balanced h owner id
  · exact property_balanced h owner id
  · exact .forM fun x => (block_balanced h x).discard
  · exact keptSource_balanced h id
  · exact .pure _

end Setting

end KotlinTree.Attribution
