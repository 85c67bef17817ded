import KotlinTree.Attribution.Call
import KotlinTree.Attribution.Declaration
import KotlinTree.Proofs.Attribution.Declaration
import KotlinTree.Proofs.Attribution.Once.Name
import KotlinTree.Proofs.Attribution.Property

/-!
Calls, references to what can be called, declarations and source that is kept as it is go once through each
of their parts. Parts that are found by what stands before them, or by their kind, are none of the others.
-/

namespace KotlinTree.Attribution.Setting

variable {source : String} {s : Setting} {rec : Tasks} {id : NodeId}

theorem argument_once (h : rec.Once s) (hf : s.forest.Sound source) (id : NodeId) :
    Once s [id] (s.argument rec id) := by
  unfold argument
  split
  · rename_i argument _ hd
    have hvalue : Once s [id] (rec.typeOf argument.expression) :=
      (h.typeOf_all _).of_option fun x hx =>
        hf.linked.inside_of_mem_parts hd (by simp_all [NodeData.parts])
    exact hvalue.bind_first fun _ => .recordType _ _
  · exact .pure _
  · exact (h.typeOf_all (some id)).discard

/-- The arguments of a call are different children of their list. -/
theorem arguments_once (h : rec.Once s) (hf : s.forest.Sound source) {call : Call}
    (hd : s.forest.data (some id) = .call call) :
    Once s call.argumentList.toList (call.arguments.toList.forM (s.argument rec)) := by
  have hall : Once s call.arguments.toList (call.arguments.toList.forM (s.argument rec)) :=
    .each fun x _ => argument_once h hf x
  have hheld : call.arguments.toList.Subperm (s.forest.children call.argumentList).toList :=
    hf.linked.held_subperm hd
  cases hlist : call.argumentList with
  | none =>
    rw [hlist] at hheld
    exact hall.mono hheld
  | some list =>
    rw [hlist] at hheld
    obtain ⟨found, hperm, hsub⟩ := hheld
    have hnodup := hperm.nodup_iff.mp ((hf.linked.children_nodup list).sublist hsub)
    refine hall.of_children hf hnodup fun x hx => ?_
    exact Array.mem_toList_iff.mp (hsub.subset (hperm.mem_iff.mpr hx))

theorem calleeType_once (h : rec.Once s) (hf : s.forest.Sound source) (callee : NodeId)
    (count : Nat) : Once s [callee] (s.calleeType rec callee count) := by
  unfold calleeType
  split
  · rename_i hkind
    refine Once.get.bind_second fun st => ?_
    exact (recordName_once hf hkind _).bind_first fun q => .pure _
  · exact (accessUse_once h hf callee _).bind_first fun q => .pure _
  · exact (h.typeOf_all (some callee)).bind_first fun _ => .pure _

theorem call_once (h : rec.Once s) (hf : s.forest.Sound source) {call : Call}
    (hd : s.forest.data (some id) = .call call) : Once s [id] (s.call rec call) := by
  have hall : Once s ([call.callee] ++ (call.argumentList.toList ++ call.trailingLambda.toList))
      (s.call rec call) := by
    refine (calleeType_once h hf _ _).bind fun t => ?_
    refine (arguments_once h hf hd).bind fun _ => ?_
    exact (h.typeOf_all _).bind_first fun _ => .pure _
  exact hall.of_direct hf hd (List.Subperm.refl _)

theorem impliedCallType_once {tops : List NodeId} (receiver : Ty) (method : String) (count : Nat) :
    Once s tops (s.impliedCallType receiver method count) := by
  unfold impliedCallType
  split
  · exact Once.get.bind_second fun st => .pure _
  · exact .pure _

section
variable {binary : BinaryExpression}

theorem infixCall_once (h : rec.Once s) (hf : s.forest.Sound source)
    (hd : s.forest.data (some id) = .binary binary) (hname : binary.operator = .identifier) :
    Once s [id] (s.infixCall rec binary) := by
  have htoken : s.forest.kind? (some binary.operatorToken) = some (.token .identifier) := by
    obtain ⟨k, hk, hkind⟩ := hf.linked.exists_role hd (List.mem_singleton_self _)
    rw [hkind, List.mem_singleton.mp hk, hname]
  have hall : Once s ([binary.left] ++ ([binary.operatorToken] ++ binary.right.toList))
      (s.infixCall rec binary) := by
    refine (h.typeOf_all (some binary.left)).bind fun receiver => ?_
    refine (recordName_once hf htoken _).bind fun q => ?_
    exact (h.typeOf_all _).bind_first fun _ => .pure _
  exact hall.of_direct hf hd (List.Subperm.refl _)

/-- The operands are gone through, and what stands between them is not. -/
theorem operands_once (hf : s.forest.Sound source) {α : Type} {p : Attributing α}
    (hd : s.forest.data (some id) = .binary binary)
    (hp : Once s ([binary.left] ++ binary.right.toList) p) : Once s [id] p := by
  refine hp.of_direct hf hd (List.Sublist.subperm ?_)
  exact (List.sublist_cons_self binary.operatorToken _).cons_cons binary.left

theorem operatorCall_once (h : rec.Once s) (hf : s.forest.Sound source)
    (hd : s.forest.data (some id) = .binary binary) :
    Once s [id] (s.operatorCall rec binary) := by
  refine operands_once hf hd ((h.typeOf_all (some binary.left)).bind fun receiver => ?_)
  refine (h.typeOf_all _).bind_first fun _ => ?_
  split
  · exact impliedCallType_once _ _ _
  · exact .pure _

end

theorem indexing_once (h : rec.Once s) (hf : s.forest.Sound source) (id : NodeId) :
    Once s [id] (s.indexing rec id) := by
  unfold indexing
  split
  · exact .pure _
  · rename_i receiver rest heq
    have hsub : ([receiver] ++ rest.filter fun index => !s.isIndexPunctuation index).Sublist
        (s.forest.children (some id)).toList := by
      rw [heq]
      exact List.filter_sublist.cons_cons receiver
    refine Once.of_children ?_ hf ((hf.linked.children_nodup id).sublist hsub) fun x hx =>
      Array.mem_toList_iff.mp (hsub.subset hx)
    refine (h.typeOf_all (some receiver)).bind fun t => ?_
    exact (h.types _).bind_first fun _ => impliedCallType_once _ _ _

theorem callableReference_once (h : rec.Once s) (hf : s.forest.Sound source)
    {reference : CallableReference} (hd : s.forest.data (some id) = .callableReference reference) :
    Once s [id] (s.callableReference rec reference) := by
  unfold callableReference
  split
  · rename_i receiver name hreceiver hname
    split
    · rename_i hkind
      have hdirect : ([receiver] ++ [name]).Subperm (NodeData.callableReference reference).direct := by
        rw [NodeData.direct, hreceiver, hname]
        exact List.Subperm.refl _
      refine Once.of_direct ((h.qualifierOf receiver).bind fun q => ?_) hf hd hdirect
      split
      · exact (recordName_once hf (by simpa [isIdentifier] using hkind) _).discard
      · exact .pure _
    · exact .pure _
  · exact .pure _

end KotlinTree.Attribution.Setting

namespace KotlinTree

/-- The nodes that are parameters. -/
def Forest.parameterNodes (f : Forest) (ids : List NodeId) : List NodeId :=
  ids.filter fun x => f.kind? (some x) = some (.node .parameter)

namespace Attribution.Setting

variable {source : String} {s : Setting} {rec : Tasks} {id : NodeId}

theorem block_once (h : rec.Once s) (hf : s.forest.Sound source) (id : NodeId) :
    Once s [id] (s.block rec id) := by
  unfold block
  split
  · rename_i statements hd
    have hall : Once s statements.toList
        (inScope (s.through (fun (_ : Ty) x => rec.statement (some x)) (.of Ty.unitName)
          statements.toList)) :=
      .inScope _ (.through (fun _ x _ => h.statement (some x)) _)
    refine (hall.of_direct hf hd (List.Subperm.refl _)).bind_first fun last => ?_
    exact (Once.recordType _ _).bind_second fun _ => .pure _
  · exact .pure _

/-- A node that is no parameter is passed over. -/
theorem parameter_once (h : rec.Once s) (hf : s.forest.Sound source) (property : Option Owner)
    (id : NodeId) : Once s (s.forest.parameterNodes [id]) (s.parameter rec property id) := by
  unfold parameter Forest.parameterNodes
  split
  · rename_i parameter hd
    have hkind := hf.linked.kind?_of_data hd rfl rfl
    rw [List.filter_eq_self.mpr fun x hx => by simp [List.mem_singleton.mp hx, hkind]]
    have hdirect : (s.forest.writtenTypes parameter.typeRef ++ parameter.defaultValue.toList).Subperm
        (NodeData.parameter parameter).direct :=
      (List.filter_sublist.append (List.Sublist.refl _)).subperm
    refine Once.of_direct ?_ hf hd hdirect
    refine (typeUse_once hf _).bind fun written => ?_
    refine (h.typeOf_all _).bind_first fun _ => ?_
    refine (Once.declareLocal _ _).bind_second fun _ => ?_
    have hrecord (t : Ty) : Once s [] (do recordType id t; return t) :=
      (Once.recordType id t).bind_second fun _ => .pure t
    dsimp only
    split
    · exact (Once.recordVariable _).bind_second fun _ => hrecord _
    · exact hrecord _
  · exact .pure _

theorem parameters_once (h : rec.Once s) (hf : s.forest.Sound source) (property : Option Owner)
    (ids : Array NodeId) :
    Once s (s.forest.parameterNodes ids.toList) (s.parameters rec property ids) :=
  .filtered fun x _ => (parameter_once h hf property x).discard

section
variable {d : FunctionDeclaration}

theorem body_once (h : rec.Once s) (hf : s.forest.Sound source) (d : FunctionDeclaration) :
    Once s d.body.toList (s.body rec d) := by
  unfold body
  split
  · exact .pure _
  · rename_i value hbody
    rw [hbody]
    split
    · exact h.typeOf_all (some value)
    · exact (block_once h hf value).bind_first fun _ => .pure _

/-- The calls that stand beside the body of a secondary constructor. -/
def delegationCalls (s : Setting) (id : NodeId) (body : Option NodeId) : List NodeId :=
  (s.childrenOf (some id) .callExpression).filter (some · ≠ body)

theorem delegation_once (h : rec.Once s) (id : NodeId) (body : Option NodeId) :
    Once s (s.delegationCalls id body) (s.delegation rec id body) := by
  unfold delegation
  split
  · exact h.types _
  · exact .pure _

/-- The parts of a function are different children of it, and the calls beside its body are others. -/
theorem function_parts (hf : s.forest.Sound source) (hd : s.forest.data (some id) = .function d) :
    let parts := s.forest.writtenTypes d.receiverType ++ (s.forest.writtenTypes d.returnType ++
      (s.forest.parameterNodes d.parameters.toList ++
        (s.delegationCalls id d.body ++ d.body.toList)))
    parts.Nodup ∧ ∀ x ∈ parts, x ∈ s.forest.children (some id) := by
  intro parts
  have hdirect : (d.receiverType.toList ++ d.parameters.toList ++ d.returnType.toList ++
    d.body.toList).Nodup := hf.linked.direct_nodup hd
  have hcalls : (s.delegationCalls id d.body).Nodup :=
    ((hf.linked.children_nodup id).filter _).filter _
  have hcall (x : NodeId) (hx : x ∈ s.delegationCalls id d.body) :
      x ∈ s.forest.children (some id) ∧ some x ≠ d.body ∧
        s.forest.kind? (some x) = some (.node .callExpression) := by
    obtain ⟨hx, hbody⟩ := List.mem_filter.mp hx
    obtain ⟨hchild, hkind⟩ := List.mem_filter.mp hx
    exact ⟨Array.mem_toList_iff.mp hchild, by simpa using hbody, by simpa using hkind⟩
  have htype (x : NodeId) (hx : x ∈ s.delegationCalls id d.body) :
      s.forest.isTypeReference x = false := by
    simp [Forest.isTypeReference, (hcall x hx).2.2]
  -- Calls are told from types and parameters by their kind, and from the body by what they are.
  unfold parts Forest.writtenTypes Forest.parameterNodes
  constructor
  · grind [List.nodup_append, List.Nodup.filter]
  · intro x hx
    have hpart : x ∈ (NodeData.function d).direct ∨ x ∈ s.delegationCalls id d.body := by
      unfold NodeData.direct
      grind
    rcases hpart with hx | hx
    · exact hf.linked.mem_children_of_mem_direct hd hx
    · exact (hcall x hx).1

theorem function_once (h : rec.Once s) (hf : s.forest.Sound source) (owner : Owner) (id : NodeId) :
    Once s [id] (s.function rec owner id) := by
  unfold function
  split
  · rename_i d hd
    obtain ⟨hnodup, hin⟩ := function_parts hf hd
    refine .withTypeParameters _ (Once.of_children ?_ hf hnodup hin)
    refine (typeUse?_once hf _).bind fun receiver => ?_
    refine (typeUse?_once hf _).bind fun result => ?_
    extract_lets rest
    -- Parameters come before the body; whether the result is learned records no mark.
    have hrest (u : Unit) : Once s
        (s.forest.parameterNodes d.parameters.toList ++
          (s.delegationCalls id d.body ++ d.body.toList)) (rest u) := by
      refine Once.bind_first (.inScope _ ((parameters_once h hf none _).bind fun _ =>
        .inFrame _ ((delegation_once h id _).bind fun _ => body_once h hf d))) fun value => ?_
      split
      · split
        · exact .declare _
        · split
          · split
            · exact .learn _ _ _
            · exact .pure _
          · exact .pure _
      · exact .pure _
    split
    · exact (Once.declare _).bind_second hrest
    · exact hrest ()
  · exact .pure _

end

theorem declareProperty_once {tops : List NodeId} (owner : Owner) (isWritten : Bool) (name : String)
    (type : Ty) (node : NodeId) : Once s tops (declareProperty owner isWritten name type node) := by
  unfold declareProperty
  split
  · split
    · exact (Once.learn _ _ _).bind_second fun _ => .recordVariable _
    · exact .recordVariable _
  · exact .recordVariable _
  · exact (Once.declareLocal name type).bind_second fun _ => .recordVariable _

theorem destructuring_once (id : NodeId) : Once s [] (s.destructuring id) := by
  have hall : Once s ((s.destructuredNames id).filter fun _ => false) (s.destructuring id) :=
    .filtered fun x _ => (Once.declareLocal _ _).bind_second fun _ => .recordVariable _
  rwa [List.filter_false] at hall

theorem accessor_once (h : rec.Once s) (hf : s.forest.Sound source) (type : Ty) (id : NodeId) :
    Once s [id] (s.accessor rec type id) := by
  unfold accessor
  split
  · rename_i d hd
    have hsub : (s.forest.parameterNodes d.parameters.toList ++
        (s.forest.writtenTypes d.returnType ++ d.body.toList)).Sublist (NodeData.function d).direct := by
      simp only [NodeData.direct, List.append_assoc]
      refine List.Sublist.trans ?_ (List.sublist_append_right _ _)
      exact List.filter_sublist.append (List.filter_sublist.append (List.Sublist.refl _))
    refine .inScope _ (Once.of_direct ?_ hf hd hsub.subperm)
    refine (Once.declareLocal _ type).bind_second fun _ => ?_
    refine Once.bind (.filtered fun x _ => ?_) fun _ =>
      (typeUse_once hf _).bind fun _ => (body_once h hf d).discard
    refine (parameter_once h hf none x).bind_first fun t => ?_
    split
    · split
      · exact Once.declareLocal _ type
      · exact .pure _
    · exact .pure _
  · exact .pure _

/-- The parts of a property are different children of it. What it is delegated to stands after another
sign than its initializer, and is no written type and no accessor if it is an expression. -/
theorem property_parts (hf : s.forest.Sound source) {d : PropertyDeclaration}
    (hd : s.forest.data (some id) = .property d) :
    let parts := s.forest.writtenTypes d.receiverType ++ (s.forest.writtenTypes d.typeRef ++
      (s.forest.active d.initializer ++ (s.forest.active (s.nodeAfter? id .byKeyword) ++
        s.childrenOf (some id) .propertyAccessor)))
    parts.Nodup ∧ ∀ x ∈ parts, x ∈ s.forest.children (some id) := by
  intro parts
  have hdirect : (d.receiverType.toList ++ d.typeRef.toList ++ d.initializer.toList).Nodup :=
    hf.linked.direct_nodup hd
  have haccessors : (s.childrenOf (some id) .propertyAccessor).Nodup :=
    (hf.linked.children_nodup id).filter _
  have hdelegate (x : NodeId) (hx : s.nodeAfter? id .byKeyword = some x) :
      x ∈ s.forest.children (some id) ∧ d.initializer ≠ some x := by
    refine ⟨mem_children_of_nodeAfter? hx, fun hinitial => ?_⟩
    have hsigned : (.equals, x) ∈ (NodeData.property d).signed := by simp [NodeData.signed, hinitial]
    exact nodeAfter?_ne_of_follows hf.linked (hf.linked.follows hd hsigned) (by decide) hx
  have haccessor (x : NodeId) (hx : x ∈ s.childrenOf (some id) .propertyAccessor) :
      x ∈ s.forest.children (some id) ∧ s.forest.isInert x ∧ s.forest.isTypeReference x = false := by
    obtain ⟨hchild, hkind⟩ := List.mem_filter.mp hx
    have hkind : s.forest.kind? (some x) = some (.node .propertyAccessor) := by simpa using hkind
    exact ⟨Array.mem_toList_iff.mp hchild, by simp [Forest.isInert, hkind],
      by simp [Forest.isTypeReference, hkind]⟩
  -- A delegate that is a written type or an accessor is no expression, and so not among the parts twice.
  have htype (x : NodeId) : s.forest.isTypeReference x → s.forest.isInert x :=
    Forest.isInert_of_isTypeReference
  unfold parts Forest.writtenTypes Forest.active
  constructor
  · grind [List.nodup_append, List.Nodup.filter]
  · intro x hx
    have hpart : x ∈ (NodeData.property d).direct ∨ s.nodeAfter? id .byKeyword = some x ∨
        x ∈ s.childrenOf (some id) .propertyAccessor := by
      unfold NodeData.direct
      grind
    rcases hpart with hx | hx | hx
    · exact hf.linked.mem_children_of_mem_direct hd hx
    · exact (hdelegate x hx).1
    · exact (haccessor x hx).1

theorem property_once (h : rec.Once s) (hf : s.forest.Sound source) (owner : Owner) (id : NodeId) :
    Once s [id] (s.property rec owner id) := by
  unfold property
  split
  · rename_i d hd
    obtain ⟨hnodup, hin⟩ := property_parts hf hd
    refine .withTypeParameters _ (Once.of_children ?_ hf hnodup hin)
    refine (typeUse?_once hf _).bind fun receiver => ?_
    refine (typeUse?_once hf _).bind fun written => ?_
    refine Once.bind_first (.inFrame _ ?_) fun type => ?_
    · refine (h.typeOf _).bind fun initial => (h.typeOf _).bind fun _ => ?_
      exact (Once.each fun x _ => accessor_once h hf _ x).bind_first fun _ => .pure _
    · split
      · exact declareProperty_once _ _ _ _ _
      · exact destructuring_once id
  · exact .pure _

/-- What a supertype is delegated to is not the list of arguments, which is no expression. -/
theorem supertype_parts (hf : s.forest.Sound source) {entry : SupertypeEntry}
    (hd : s.forest.data (some id) = .supertypeEntry entry) :
    let parts := s.forest.writtenTypes (some entry.typeRef) ++ (entry.arguments.toList ++
      s.forest.active (s.nodeAfter? id .byKeyword))
    parts.Nodup ∧ ∀ x ∈ parts, x ∈ s.forest.children (some id) := by
  intro parts
  have hdirect : (entry.typeRef :: entry.arguments.toList).Nodup := hf.linked.direct_nodup hd
  -- Arguments are attributed with the supertype, so they are passed over among the children.
  have harguments (x : NodeId) (hx : entry.arguments = some x) : s.forest.isInert x := by
    have hrole : (x, [Kind.node .valueArgumentList]) ∈ (NodeData.supertypeEntry entry).roles := by
      simp [NodeData.roles, hx]
    obtain ⟨k, hk, hkind⟩ := hf.linked.exists_role hd hrole
    simp [Forest.isInert, hkind, List.mem_singleton.mp hk]
  have htype (x : NodeId) : s.forest.isTypeReference x → s.forest.isInert x :=
    Forest.isInert_of_isTypeReference
  unfold parts Forest.writtenTypes Forest.active
  constructor
  · grind [List.nodup_append, List.Nodup.filter]
  · intro x hx
    have hpart : x ∈ (NodeData.supertypeEntry entry).direct ∨ s.nodeAfter? id .byKeyword = some x := by
      unfold NodeData.direct
      grind
    rcases hpart with hx | hx
    · exact hf.linked.mem_children_of_mem_direct hd hx
    · exact mem_children_of_nodeAfter? hx

theorem supertype_once (h : rec.Once s) (hf : s.forest.Sound source) (id : NodeId) :
    Once s [id] (s.supertype rec id) := by
  unfold supertype
  split
  · rename_i entry hd
    obtain ⟨hnodup, hin⟩ := supertype_parts hf hd
    have harguments : Once s entry.arguments.toList
        ((s.childrenOf entry.arguments .valueArgument).forM (s.argument rec)) := by
      have hall : Once s (s.childrenOf entry.arguments .valueArgument)
          ((s.childrenOf entry.arguments .valueArgument).forM (s.argument rec)) :=
        .each fun x _ => argument_once h hf x
      cases ha : entry.arguments with
      | none => exact .pure _
      | some list =>
        rw [ha] at hall
        exact hall.of_children hf ((hf.linked.children_nodup list).filter _) fun x hx =>
          Array.mem_toList_iff.mp (List.mem_of_mem_filter hx)
    refine Once.of_children ?_ hf hnodup hin
    refine (typeUse_once hf _).bind fun t => harguments.bind fun _ => ?_
    exact (h.typeOf _).bind_first fun _ => .pure t
  · exact .pure _

theorem members_once (h : rec.Once s) (hf : s.forest.Sound source) (owner : Owner)
    (constructorScope : LocalScope) (body : Option NodeId) :
    Once s body.toList (s.members rec owner constructorScope (s.forest.classMembers body)) := by
  have hall (ids : Array NodeId) : Once s ids.toList (s.members rec owner constructorScope ids) := by
    unfold members
    refine .through (fun _ x _ => ?_) ()
    have hmember := h.declaration owner x
    split
    · exact .inScope _ hmember
    · exact .inScope _ hmember
    · exact hmember
  cases body with
  | none => exact hall #[]
  | some body =>
    unfold Forest.classMembers
    split
    · rename_i members hd
      exact (hall members).of_direct hf hd (List.Subperm.refl _)
    · exact (hall #[]).mono List.nil_subperm

/-- After its constructor, a class goes through its supertypes and then through its body. -/
theorem classBeneath_once (h : rec.Once s) (hf : s.forest.Sound source)
    (declaration : ClassDeclaration) (name : Option String) (owner : Owner) :
    Once s (declaration.supertypes.toList ++ declaration.body.toList) (do
      let supertypes ← declaration.supertypes.toList.mapM (s.supertype rec)
      let constructorScope ← popScope
      let (type, value, superclass) := s.classTypes name supertypes
      let frame : Frame :=
        { type, superclass, isClass := true
          label := declaration.name.map fun name => s.forest.nameText (some name)
          hidesOuter := name.isSome && !declaration.modifiers.contains .innerWord }
      inFrame (some frame) <|
        s.members rec owner constructorScope (s.forest.classMembers declaration.body)
      return value) := by
  refine (Once.mapM fun x _ => supertype_once h hf x).bind fun supertypes => ?_
  refine Once.popScope.bind_second fun scope => ?_
  exact (Once.inFrame _ (members_once h hf _ _ _)).bind_first fun _ => .pure _

theorem classUse_once (h : rec.Once s) (hf : s.forest.Sound source) (id : NodeId) :
    Once s [id] (s.classUse rec id) := by
  unfold classUse
  split
  · rename_i declaration hd
    have hrest := classBeneath_once h hf declaration
    have hdirect : (declaration.primaryConstructor.toList ++ (declaration.supertypes.toList ++
        declaration.body.toList)).Subperm (NodeData.classDeclaration declaration).direct := by
      rw [← List.append_assoc]
      exact List.Subperm.refl _
    refine .withTypeParameters _ (.inClass _ (Once.of_direct ?_ hf hd hdirect))
    refine (Once.pushScope _).bind_second fun _ => ?_
    split
    · rename_i parameters hconstructor
      -- The constructor's data is that of a node, so there is one.
      cases hp : declaration.primaryConstructor with
      | none => simp [hp, Forest.data, Forest.node?] at hconstructor
      | some primary =>
        rw [hp] at hconstructor
        have hparameters := (parameters_once h hf
          (some (((s.unit.classNames.lookup id).map Owner.named).getD .anonymous))
          parameters).of_direct hf hconstructor List.filter_sublist.subperm
        exact hparameters.bind fun _ => hrest _ _
    · exact (hrest _ _).mono (List.sublist_append_right _ _).subperm
  · exact .pure _

theorem keptSource_once (h : rec.Once s) (hf : s.forest.Sound source) (id : NodeId) :
    Once s [id] (s.keptSource rec id) := by
  refine Once.of_children (.each fun child _ => ?_) hf (hf.linked.children_nodup id) fun x hx =>
    Array.mem_toList_iff.mp hx
  split
  · exact h.declaration .block child
  · exact h.declaration .block child
  · exact h.declaration .block child
  · exact h.declaration .block child
  · exact ((typeUse_once hf (some child)).mono List.filter_sublist.subperm).discard
  · exact (h.typeOf_all (some child)).discard
  · exact .pure _

theorem declaration_once (h : rec.Once s) (hf : s.forest.Sound source) (owner : Owner)
    (id : NodeId) : Once s [id] (s.declaration rec owner id) := by
  unfold declaration
  split
  · exact (classUse_once h hf id).discard
  · exact (classUse_once h hf id).discard
  · exact function_once h hf owner id
  · exact function_once h hf owner id
  · exact property_once h hf owner id
  · refine Once.of_children (.each fun x _ => (block_once h hf x).discard) hf
      ((hf.linked.children_nodup id).filter _) fun x hx => ?_
    exact Array.mem_toList_iff.mp (List.mem_of_mem_filter hx)
  · exact keptSource_once h hf id
  · exact .pure _

end Attribution.Setting

end KotlinTree
