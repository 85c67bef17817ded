import KotlinTree.Attribution.Declaration
import KotlinTree.Proofs.Attribution.Curtail.Name

/-!
Declarations and source that is kept as it is are cut short between their parts or in one of them: a
walk through members or statements asks before each whether to stop.
-/

namespace KotlinTree.Attribution.Setting

variable {s : Setting} {rec rec' : Tasks}

theorem block_curtails (h : Tasks.Curtail s.stops rec rec') (id : NodeId) :
    Curtails s.stops (s.block rec id) (s.endless.block rec' id) := by
  unfold block
  simp only [endless_forest]
  split
  · refine (Curtails.inScope _ (.through (fun _ x => h.statement (some x)) _)).bind fun last => ?_
    exact (Curtails.of_steady (.recordType id last)).seq (.pure last)
  · exact .pure _

theorem parameter_curtails (h : Tasks.Curtail s.stops rec rec') (property : Option Owner)
    (id : NodeId) :
    Curtails s.stops (s.parameter rec property id) (s.endless.parameter rec' property id) := by
  unfold parameter
  simp only [endless_forest]
  split
  · refine (typeUse_curtails _).bind fun written => ?_
    refine (h.typeOf _).seq ((Curtails.of_steady (.declareLocal _ _)).seq ?_)
    have hrecord (t : Ty) : Steady (do recordType id t; return t) := (Steady.recordType id t).seq (.pure t)
    refine .ite (fun _ => ?_) fun _ => .of_steady (hrecord _)
    exact .of_steady ((Steady.recordVariable _).seq (hrecord _))
  · exact .pure _

theorem parameters_curtails (h : Tasks.Curtail s.stops rec rec') (property : Option Owner)
    (ids : Array NodeId) :
    Curtails s.stops (s.parameters rec property ids) (s.endless.parameters rec' property ids) :=
  .forM fun x => (parameter_curtails h property x).discard

theorem body_curtails (h : Tasks.Curtail s.stops rec rec') (d : FunctionDeclaration) :
    Curtails s.stops (s.body rec d) (s.endless.body rec' d) := by
  unfold body
  split
  · exact .pure _
  · split
    · exact h.typeOf _
    · exact (block_curtails h _).seq (.pure _)

theorem delegation_curtails (h : Tasks.Curtail s.stops rec rec') (id : NodeId)
    (body : Option NodeId) :
    Curtails s.stops (s.delegation rec id body) (s.endless.delegation rec' id body) :=
  .ite (fun _ => h.types _) fun _ => .pure _

theorem function_curtails (h : Tasks.Curtail s.stops rec rec') (owner : Owner) (id : NodeId) :
    Curtails s.stops (s.function rec owner id) (s.endless.function rec' owner id) := by
  unfold function
  simp -zeta only [endless_forest]
  split
  · rename_i d _
    refine .withTypeParameters _ ?_
    refine (typeUse?_curtails _).bind fun receiver => (typeUse?_curtails _).bind fun result => ?_
    extract_lets rest rest'
    -- What follows is the same, whether the function has been declared in a block before or not.
    have hrest (u : Unit) : Curtails s.stops (rest u) (rest' u) := by
      refine (Curtails.inScope _ ((parameters_curtails h none _).seq (.inFrame _
        ((delegation_curtails h id _).seq (body_curtails h d))))).bind fun value => ?_
      split
      · refine .ite (fun _ => .of_steady (.declareLocalFunction _ _)) fun _ => ?_
        split
        · exact .ite (fun _ => .of_steady (.learn _ _ _)) fun _ => .pure _
        · exact .pure _
      · exact .pure _
    refine .ite (fun _ => ?_) fun _ => hrest ()
    exact (Curtails.of_steady (.declareLocalFunction _ _)).bind hrest
  · exact .pure _

theorem declareProperty_steady (owner : Owner) (isWritten : Bool) (name : String) (type : Ty)
    (node : NodeId) : Steady (declareProperty owner isWritten name type node) := by
  unfold declareProperty
  split
  · split
    · exact (Steady.learn _ _ _).seq (.recordVariable _)
    · exact .recordVariable _
  · exact .recordVariable _
  · exact (Steady.declareLocal _ _).seq (.recordVariable _)

theorem accessor_curtails (h : Tasks.Curtail s.stops rec rec') (type : Ty) (id : NodeId) :
    Curtails s.stops (s.accessor rec type id) (s.endless.accessor rec' type id) := by
  unfold accessor
  simp only [endless_forest]
  split
  · rename_i d _
    refine .inScope _ ((Curtails.of_steady (.declareLocal _ _)).seq ?_)
    refine (Curtails.forM fun x => ?_).seq ?_
    · refine (parameter_curtails h none x).bind fun t => ?_
      split
      · split
        · exact .of_steady (.declareLocal _ _)
        · exact .pure _
      · exact .pure _
    · exact (typeUse_curtails _).seq (body_curtails h d).discard
  · exact .pure _

theorem destructuring_steady (id : NodeId) : Steady (s.destructuring id) :=
  .forM fun _ => (Steady.declareLocal _ _).seq (.recordVariable _)

theorem property_curtails (h : Tasks.Curtail s.stops rec rec') (owner : Owner) (id : NodeId) :
    Curtails s.stops (s.property rec owner id) (s.endless.property rec' owner id) := by
  unfold property
  simp only [endless_forest]
  split
  · refine .withTypeParameters _ ?_
    refine (typeUse?_curtails _).bind fun receiver => (typeUse?_curtails _).bind fun written => ?_
    refine Curtails.bind (.inFrame _ ?_) fun type => ?_
    · refine (h.typeOf _).bind fun initial => ?_
      exact (h.typeOf _).seq ((Curtails.forM fun x => accessor_curtails h _ x).seq (.pure _))
    · split
      · exact .of_steady (declareProperty_steady _ _ _ type id)
      · exact .of_steady (destructuring_steady id)
  · exact .pure _

theorem supertype_curtails (h : Tasks.Curtail s.stops rec rec') (id : NodeId) :
    Curtails s.stops (s.supertype rec id) (s.endless.supertype rec' id) := by
  unfold supertype
  simp only [endless_forest]
  split
  · refine (typeUse_curtails _).bind fun t => ?_
    exact (Curtails.forM fun x => argument_curtails h x).seq ((h.typeOf _).seq (.pure t))
  · exact .pure _

theorem members_curtails (h : Tasks.Curtail s.stops rec rec') (owner : Owner)
    (constructorScope : LocalScope) (ids : Array NodeId) :
    Curtails s.stops (s.members rec owner constructorScope ids)
      (s.endless.members rec' owner constructorScope ids) := by
  unfold members
  refine .through (fun _ x => ?_) ()
  have hdeclaration := h.declaration owner x
  simp only [endless_forest]
  split
  · exact .inScope _ hdeclaration
  · exact .inScope _ hdeclaration
  · exact hdeclaration

theorem classUse_curtails (h : Tasks.Curtail s.stops rec rec') (id : NodeId) :
    Curtails s.stops (s.classUse rec id) (s.endless.classUse rec' id) := by
  unfold classUse
  simp -zeta only [endless_forest]
  split
  · refine .withTypeParameters _ (.inClass _ ?_)
    refine (Curtails.of_steady (.pushScope _)).seq ?_
    extract_lets rest rest'
    -- What follows is the same, whether there is a constructor with parameters or not.
    have hrest (u : Unit) : Curtails s.stops (rest u) (rest' u) := by
      refine (Curtails.mapM fun x => supertype_curtails h x).bind fun supertypes => ?_
      refine (Curtails.of_steady .popScope).bind fun scope => ?_
      exact (Curtails.inFrame _ (members_curtails h _ scope _)).seq (.pure _)
    split
    · exact (parameters_curtails h _ _).bind hrest
    · exact hrest ()
  · exact .pure _

theorem keptSource_curtails (h : Tasks.Curtail s.stops rec rec') (id : NodeId) :
    Curtails s.stops (s.keptSource rec id) (s.endless.keptSource rec' id) := by
  refine .forM fun child => ?_
  simp only [endless_forest]
  split
  · exact h.declaration .block child
  · exact h.declaration .block child
  · exact h.declaration .block child
  · exact h.declaration .block child
  · exact (typeUse_curtails _).discard
  · exact (h.typeOf _).discard
  · exact .pure _

theorem declaration_curtails (h : Tasks.Curtail s.stops rec rec') (owner : Owner) (id : NodeId) :
    Curtails s.stops (s.declaration rec owner id) (s.endless.declaration rec' owner id) := by
  unfold declaration
  simp only [endless_forest]
  split
  · exact (classUse_curtails h id).discard
  · exact (classUse_curtails h id).discard
  · exact function_curtails h owner id
  · exact function_curtails h owner id
  · exact property_curtails h owner id
  · exact .forM fun x => (block_curtails h x).discard
  · exact keptSource_curtails h id
  · exact .pure _

end KotlinTree.Attribution.Setting
