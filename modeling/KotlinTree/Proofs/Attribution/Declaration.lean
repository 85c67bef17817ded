import KotlinTree.Attribution.Call
import KotlinTree.Attribution.Declaration
import KotlinTree.Proofs.Attribution.Name
import KotlinTree.Proofs.Binding.Site
import KotlinTree.Proofs.Syntax.Tree

/-!
How calls, references to what can be called, declarations and source that is kept as it is are composed.
-/

namespace KotlinTree.Attribution.Setting

section
variable {s : Setting} {rec : Tasks} {id : NodeId}

/-- An argument is attributed about nodes in its own tree. -/
theorem argument_composed (h : rec.Composed s) (hf : s.forest.Linked) (id : NodeId) :
    Composed s (s.forest.Inside id) (s.argument rec id) := by
  have hself := s.forest.inside_self id
  unfold argument
  split
  · rename_i argument _ hd
    have hvalue : ∀ x ∈ argument.expression, s.forest.Inside id x := fun x hx =>
      hf.inside_of_mem_parts hd (by simp_all [NodeData.parts])
    exact (h.typeOf hvalue).bind fun t => .recordType hself t
  · exact .pure _
  · exact (h.typeOf fun x hx => Option.some.inj hx ▸ hself).discard

/-- A callee is attributed about nodes in its own tree, whether or not it names a class. -/
theorem calleeType_composed (h : rec.Composed s) (hf : s.forest.Linked) (callee : NodeId)
    (count : Nat) : Composed s (s.forest.Inside callee) (s.calleeType rec callee count) := by
  have hself := s.forest.inside_self callee
  unfold calleeType
  split
  · rename_i hkind
    refine .bind .get fun st => ?_
    exact (recordName_composed hself hkind _).bind fun q => .pure _
  · exact (accessUse_composed h hf callee _).bind fun q => .pure _
  · exact (h.typeOf fun x hx => Option.some.inj hx ▸ hself).seq (.pure _)

/-- The callee, the arguments and the trailing lambda of a call are inside it. -/
theorem call_composed (h : rec.Composed s) (hf : s.forest.Linked) {call : Call}
    (hd : s.forest.data (some id) = .call call) :
    Composed s (s.forest.Inside id) (s.call rec call) := by
  have hparts : ∀ x ∈ (NodeData.call call).parts, s.forest.Inside id x := fun x hx =>
    hf.inside_of_mem_parts hd hx
  have hcallee := hparts call.callee (by simp [NodeData.parts])
  have hcallee := (calleeType_composed h hf call.callee
    (call.arguments.size + call.trailingLambda.toList.length)).mono fun _ => hcallee.trans
  have harguments : Composed s (s.forest.Inside id)
      (call.arguments.toList.forM (s.argument rec)) := .forM fun x hx => by
    have hin := hparts x (by simp_all [NodeData.parts])
    exact (argument_composed h hf x).mono fun _ => hin.trans
  have htrailing := h.typeOf fun x (hx : x ∈ call.trailingLambda) =>
    hparts x (by simp_all [NodeData.parts])
  exact hcallee.bind fun t => harguments.seq (htrailing.seq (.pure t))

/-- What an operator or an index calls is looked up without a look at nodes. -/
theorem impliedCallType_composed {P : NodeId → Prop} (receiver : Ty) (method : String)
    (count : Nat) : Composed s P (s.impliedCallType receiver method count) := by
  unfold impliedCallType
  split
  · exact .bind .get fun st => .pure _
  · exact .pure _

section
variable {binary : BinaryExpression}

/-- The operands and the operator are in the tree. -/
theorem binary_inside (hf : s.forest.Linked) (hd : s.forest.data (some id) = .binary binary) :
    (∀ x ∈ some binary.left, s.forest.Inside id x) ∧
      s.forest.Inside id binary.operatorToken ∧ ∀ x ∈ binary.right, s.forest.Inside id x := by
  have hparts : ∀ x ∈ (NodeData.binary binary).parts, s.forest.Inside id x := fun x hx =>
    hf.inside_of_mem_parts hd hx
  refine ⟨fun x hx => hparts x ?_, hparts _ ?_, fun x hx => hparts x ?_⟩ <;>
    simp_all [NodeData.parts]

/-- Both operands are inside, and the name between them is a use at its own node. -/
theorem infixCall_composed (h : rec.Composed s) (hf : s.forest.Linked)
    (hd : s.forest.data (some id) = .binary binary) (hname : binary.operator = .identifier) :
    Composed s (s.forest.Inside id) (s.infixCall rec binary) := by
  obtain ⟨hleft, hoperator, hright⟩ := binary_inside hf hd
  have htoken : s.forest.kind? (some binary.operatorToken) = some (.token .identifier) := by
    obtain ⟨k, hk, hkind⟩ := hf.exists_role hd (List.mem_singleton_self _)
    rw [hkind, List.mem_singleton.mp hk, hname]
  unfold infixCall
  refine .bind (h.typeOf hleft) fun receiver => ?_
  refine .bind (recordName_composed hoperator htoken _) fun q => ?_
  exact (h.typeOf hright).seq (.pure _)

/-- Both operands of an operator are inside. -/
theorem operatorCall_composed (h : rec.Composed s) (hf : s.forest.Linked)
    (hd : s.forest.data (some id) = .binary binary) :
    Composed s (s.forest.Inside id) (s.operatorCall rec binary) := by
  obtain ⟨hleft, -, hright⟩ := binary_inside hf hd
  unfold operatorCall
  refine .bind (h.typeOf hleft) fun receiver => ?_
  refine (h.typeOf hright).seq ?_
  split
  · exact impliedCallType_composed _ _ _
  · exact .pure _

end

/-- The receiver and the indices are inside. -/
theorem indexing_composed (h : rec.Composed s) (hf : s.forest.Linked) (id : NodeId) :
    Composed s (s.forest.Inside id) (s.indexing rec id) := by
  unfold indexing
  split
  · exact .pure _
  · rename_i receiver rest heq
    have hchildren : ∀ x ∈ receiver :: rest, s.forest.Inside id x := fun x hx =>
      hf.inside_of_mem_children (Array.mem_toList_iff.mp (heq ▸ hx))
    refine .bind (h.typeOf fun x hx => Option.some.inj hx ▸ hchildren _ List.mem_cons_self)
      fun t => ?_
    refine (h.types fun x hx => ?_).seq (impliedCallType_composed t _ _)
    exact hchildren x (List.mem_cons_of_mem _ (List.mem_of_mem_filter hx))

/-- The receiver and the name of a callable reference are inside. -/
theorem callableReference_composed (h : rec.Composed s) (hf : s.forest.Linked)
    {reference : CallableReference} (hd : s.forest.data (some id) = .callableReference reference) :
    Composed s (s.forest.Inside id) (s.callableReference rec reference) := by
  have hparts : ∀ x ∈ (NodeData.callableReference reference).parts, s.forest.Inside id x :=
    fun x hx => hf.inside_of_mem_parts hd hx
  unfold callableReference
  split
  · rename_i receiver name hreceiver hname
    split
    · rename_i hidentifier
      have hkind : s.forest.kind? (some name) = some (.token .identifier) := of_decide_eq_true hidentifier
      refine .bind (h.qualifierOf (hparts _ (by simp [NodeData.parts, hreceiver]))) fun q => ?_
      split
      · exact (recordName_composed (hparts _ (by simp [NodeData.parts, hname])) hkind _).discard
      · exact .pure _
    · exact .pure _
  · exact .pure _

end

variable {s : Setting} {rec : Tasks}

/-- The children of a kind are inside. -/
theorem childrenOf_inside (hf : s.forest.Linked) {id : NodeId} {kind : NodeKind} :
    ∀ x ∈ s.childrenOf (some id) kind, s.forest.Inside id x := fun _ hx =>
  hf.inside_of_mem_children (Array.mem_toList_iff.mp (List.mem_of_mem_filter hx))

/-- The node after a keyword is a child. -/
theorem mem_children_of_nodeAfter? {id x : NodeId} {keyword : TokenKind}
    (h : s.nodeAfter? id keyword = some x) : x ∈ s.forest.children (some id) := by
  unfold nodeAfter? at h
  split at h
  · rename_i next after heq
    cases h
    have hmem : x ∈ (s.forest.children (some id)).toList.dropWhile
        fun child => s.forest.kind? (some child) ≠ some (.token keyword) := by
      rw [heq]
      exact List.mem_cons_of_mem _ List.mem_cons_self
    exact Array.mem_toList_iff.mp (List.dropWhile_suffix _ |>.subset hmem)
  · cases h

/-- The node after a keyword is inside. -/
theorem nodeAfter?_inside (hf : s.forest.Linked) {id : NodeId} {keyword : TokenKind} :
    ∀ x ∈ s.nodeAfter? id keyword, s.forest.Inside id x := fun _ hx =>
  hf.inside_of_mem_children (mem_children_of_nodeAfter? hx)

/-- The statements of a block are attributed in their order, each inside. -/
theorem block_composed (h : rec.Composed s) (hf : s.forest.Linked) (id : NodeId) :
    Composed s (s.forest.Inside id) (s.block rec id) := by
  unfold block
  split
  · rename_i statements hd
    refine .bind (.inScope _ (.through (fun _ x hx => h.statement fun y hy => ?_) _)) fun last => ?_
    · cases hy
      exact hf.inside_of_mem_parts hd hx
    · exact (Composed.recordType (s.forest.inside_self id) last).seq (.pure last)
  · exact .pure _

/-- A parameter's type, value and annotations are inside. -/
theorem parameter_composed (h : rec.Composed s) (hf : s.forest.Linked) (property : Option Owner)
    (id : NodeId) : Composed s (s.forest.Inside id) (s.parameter rec property id) := by
  have hself := s.forest.inside_self id
  unfold parameter
  split
  · rename_i parameter hd
    have hparts : ∀ x ∈ (NodeData.parameter parameter).parts, s.forest.Inside id x := fun x hx =>
      hf.inside_of_mem_parts hd hx
    refine .bind (typeUse_composed hf fun x hx => hparts x ?_) fun written => ?_
    · simp_all [NodeData.parts]
    refine (h.typeOf fun x hx => hparts x ?_).seq ?_
    · simp_all [NodeData.parts]
    refine (declareLocal_composed _ _).seq ?_
    have hrecord (t : Ty) : Composed s (s.forest.Inside id) (do recordType id t; return t) :=
      (Composed.recordType hself t).seq (.pure t)
    dsimp only
    split
    · refine (Composed.recordVariable ?_).seq (hrecord _)
      split <;> exact hself
    · exact hrecord _
  · exact .pure _

/-- Parameters are attributed one after the other, each inside the tree. -/
theorem parameters_composed (h : rec.Composed s) (hf : s.forest.Linked) (property : Option Owner)
    {top : NodeId} {ids : Array NodeId} (hids : ∀ x ∈ ids, s.forest.Inside top x) :
    Composed s (s.forest.Inside top) (s.parameters rec property ids) :=
  .forM fun x hx =>
    ((parameter_composed h hf property x).mono fun _ =>
      (hids x (Array.mem_toList_iff.mp hx)).trans).discard

section
variable {id : NodeId} {d : FunctionDeclaration}

/-- The body of a function is inside. -/
theorem body_composed (h : rec.Composed s) (hf : s.forest.Linked)
    (hd : s.forest.data (some id) = .function d) :
    Composed s (s.forest.Inside id) (s.body rec d) := by
  unfold body
  split
  · exact .pure _
  · rename_i value hbody
    have hvalue : s.forest.Inside id value :=
      hf.inside_of_mem_parts hd (by simp [NodeData.parts, hbody])
    split
    · exact h.typeOf fun x hx => Option.some.inj hx ▸ hvalue
    · exact ((block_composed h hf value).mono fun _ => hvalue.trans).seq (.pure _)

/-- The call by which a secondary constructor delegates to another is one of its children. -/
theorem delegation_composed (h : rec.Composed s) (hf : s.forest.Linked) (id : NodeId)
    (body : Option NodeId) : Composed s (s.forest.Inside id) (s.delegation rec id body) := by
  unfold delegation
  split
  · exact h.types fun x hx => childrenOf_inside hf x (List.mem_of_mem_filter hx)
  · exact .pure _

/-- A function's types, parameters and body are inside, and its type parameters are left at the end. -/
theorem function_composed (h : rec.Composed s) (hf : s.forest.Linked) (owner : Owner)
    (id : NodeId) : Composed s (s.forest.Inside id) (s.function rec owner id) := by
  unfold function
  split
  · rename_i d hd
    have hparts : ∀ x ∈ (NodeData.function d).parts, s.forest.Inside id x := fun x hx =>
      hf.inside_of_mem_parts hd hx
    refine .withTypeParameters _ ?_
    refine .bind (typeUse?_composed hf fun x hx => hparts x ?_) fun receiver => ?_
    · simp_all [NodeData.parts]
    refine .bind (typeUse?_composed hf fun x hx => hparts x ?_) fun result => ?_
    · simp_all [NodeData.parts]
    have hparameters : Composed s (s.forest.Inside id) (s.parameters rec none d.parameters) :=
      parameters_composed h hf none fun x hx => hparts x (by simp_all [NodeData.parts])
    -- What comes after the function is declared is the same for a local function and any other.
    extract_lets rest
    have hrest (u : Unit) : Composed s (s.forest.Inside id) (rest u) := by
      refine .bind (.inScope _ (hparameters.seq (.inFrame _ ?_))) fun value => ?_
      · exact (delegation_composed h hf id _).seq (body_composed h hf hd)
      · split
        · split
          · exact .declare _
          · split
            · split
              · exact .learn _ _ _
              · exact .pure _
            · exact .pure _
        · exact .pure _
    split
    · exact (Composed.declare _).bind hrest
    · exact hrest ()
  · exact .pure _

end

/-- A property is recorded at its own node and nowhere else. -/
theorem declareProperty_composed {P : NodeId → Prop} (owner : Owner) (isWritten : Bool)
    (name : String) (type : Ty) {node : NodeId} (hnode : P node) :
    Composed s P (declareProperty owner isWritten name type node) := by
  unfold declareProperty
  split
  · split
    · exact (Composed.learn _ _ _).seq (.recordVariable hnode)
    · exact .recordVariable hnode
  · exact .recordVariable hnode
  · exact (declareLocal_composed name type).seq (.recordVariable hnode)

/-- An accessor's parameters and body are inside. -/
theorem accessor_composed (h : rec.Composed s) (hf : s.forest.Linked) (type : Ty) (id : NodeId) :
    Composed s (s.forest.Inside id) (s.accessor rec type id) := by
  unfold accessor
  split
  · rename_i d hd
    have hparts : ∀ x ∈ (NodeData.function d).parts, s.forest.Inside id x := fun x hx =>
      hf.inside_of_mem_parts hd hx
    refine .inScope _ ((declareLocal_composed _ type).seq ?_)
    refine (Composed.forM fun x hx => ?_).seq ?_
    · have hin := hparts x (by simp_all [NodeData.parts])
      refine .bind ((parameter_composed h hf none x).mono fun _ => hin.trans) fun t => ?_
      split
      · split
        · exact declareLocal_composed _ type
        · exact .pure _
      · exact .pure _
    · refine (typeUse_composed hf fun x hx => hparts x ?_).seq (body_composed h hf hd).discard
      simp_all [NodeData.parts]
  · exact .pure _

/-- What is gathered along a list, at most one node at each step, is in the list. -/
theorem gathered_subset {σ : Type} (gathered : σ → List NodeId) {step : σ → NodeId → σ}
    (hstep : ∀ state token, gathered (step state token) ⊆ gathered state ++ [token]) (state : σ)
    (tokens : List NodeId) : gathered (tokens.foldl step state) ⊆ gathered state ++ tokens := by
  induction tokens generalizing state with
  | nil => exact List.subset_append_left _ _
  | cons token tokens ih =>
    intro x hx
    rcases List.mem_append.mp (ih (step state token) hx) with hfound | htokens
    · rcases List.mem_append.mp (hstep state token hfound) with hstate | htoken
      · exact List.mem_append_left _ hstate
      · exact List.mem_append_right _ (List.mem_singleton.mp htoken ▸ List.mem_cons_self)
    · exact List.mem_append_right _ (List.mem_cons_of_mem _ htokens)

/-- The names that are destructured are tokens below the node that holds them. -/
theorem mem_children_of_mem_destructuredNames {id x : NodeId} (h : x ∈ s.destructuredNames id) :
    ∃ names ∈ s.childrenOf (some id) .unknown, x ∈ s.forest.children (some names) := by
  unfold destructuredNames at h
  dsimp only at h
  split at h
  · rename_i names hnames
    refine ⟨names, List.mem_of_mem_head? hnames, ?_⟩
    have hx := gathered_subset Prod.fst ?_ ([], false) _ h
    · exact Array.mem_toList_iff.mp hx
    · rintro ⟨found, afterColon⟩ token
      dsimp only
      split
      · exact List.subset_append_left _ _
      · exact List.subset_append_left _ _
      · split
        · exact List.subset_append_left _ _
        · exact List.Subset.refl _
      · exact List.subset_append_left _ _
  · exact absurd h List.not_mem_nil

/-- Destructured names are declared without types, each at its own node. -/
theorem destructuring_composed (hf : s.forest.Linked) (id : NodeId) :
    Composed s (s.forest.Inside id) (s.destructuring id) := by
  refine .forM fun x hx => (declareLocal_composed _ _).seq (.recordVariable ?_)
  obtain ⟨names, hnames, hx⟩ := mem_children_of_mem_destructuredNames hx
  exact (childrenOf_inside hf names hnames).trans (hf.inside_of_mem_children hx)

/-- A property's type, value, delegate and accessors are inside. -/
theorem property_composed (h : rec.Composed s) (hf : s.forest.Linked) (owner : Owner)
    (id : NodeId) : Composed s (s.forest.Inside id) (s.property rec owner id) := by
  unfold property
  split
  · rename_i d hd
    have hparts : ∀ x ∈ (NodeData.property d).parts, s.forest.Inside id x := fun x hx =>
      hf.inside_of_mem_parts hd hx
    refine .withTypeParameters _ ?_
    refine .bind (typeUse?_composed hf fun x hx => hparts x ?_) fun receiver => ?_
    · simp_all [NodeData.parts]
    refine .bind (typeUse?_composed hf fun x hx => hparts x ?_) fun written => ?_
    · simp_all [NodeData.parts]
    have hinitial : Composed s (s.forest.Inside id) (rec.typeOf d.initializer) :=
      h.typeOf fun x hx => hparts x (by simp_all [NodeData.parts])
    refine .bind (.inFrame _ (hinitial.bind fun initial =>
      (h.typeOf (nodeAfter?_inside hf)).seq ?_)) fun type => ?_
    · refine (Composed.forM fun x hx => ?_).seq (.pure _)
      exact (accessor_composed h hf _ x).mono fun _ => (childrenOf_inside hf x hx).trans
    · split
      · exact declareProperty_composed _ _ _ _ (s.forest.inside_self id)
      · exact destructuring_composed hf id
  · exact .pure _

/-- A supertype's reference and arguments are inside. -/
theorem supertype_composed (h : rec.Composed s) (hf : s.forest.Linked) (id : NodeId) :
    Composed s (s.forest.Inside id) (s.supertype rec id) := by
  unfold supertype
  split
  · rename_i entry hd
    have hparts : ∀ x ∈ (NodeData.supertypeEntry entry).parts, s.forest.Inside id x := fun x hx =>
      hf.inside_of_mem_parts hd hx
    refine .bind (typeUse_composed hf fun x hx => hparts x ?_) fun t => ?_
    · simp_all [NodeData.parts]
    refine (Composed.forM fun x hx => ?_).seq ((h.typeOf (nodeAfter?_inside hf)).seq (.pure t))
    have hin : s.forest.Inside id x := by
      cases ha : entry.arguments with
      | none => simp [ha, childrenOf, Forest.children, Forest.node?] at hx
      | some arguments =>
        rw [ha] at hx
        exact (hparts arguments (by simp [NodeData.parts, ha])).trans (childrenOf_inside hf x hx)
    exact (argument_composed h hf x).mono fun _ => hin.trans
  · exact .pure _

/-- Members are attributed one after the other, each inside the tree. -/
theorem members_composed (h : rec.Composed s) (owner : Owner) (constructorScope : LocalScope)
    {top : NodeId} {ids : Array NodeId} (hids : ∀ x ∈ ids, s.forest.Inside top x) :
    Composed s (s.forest.Inside top) (s.members rec owner constructorScope ids) := by
  unfold members
  refine .through (fun _ x hx => ?_) ()
  have hin := h.declaration owner (hids x (Array.mem_toList_iff.mp hx))
  split
  · exact .inScope _ hin
  · exact .inScope _ hin
  · exact hin

/-- A class's parameters, supertypes and members are inside. -/
theorem classUse_composed (h : rec.Composed s) (hf : s.forest.Linked) (id : NodeId) :
    Composed s (s.forest.Inside id) (s.classUse rec id) := by
  unfold classUse
  split
  · rename_i declaration hd
    have hparts : ∀ x ∈ (NodeData.classDeclaration declaration).parts, s.forest.Inside id x :=
      fun x hx => hf.inside_of_mem_parts hd hx
    refine .withTypeParameters _ (.inClass _ ?_)
    -- Supertypes and members are attributed alike with and without a primary constructor.
    have hsupertypes : Composed s (s.forest.Inside id)
        (declaration.supertypes.toList.mapM (s.supertype rec)) := .mapM fun x hx => by
      have hin := hparts x (by simp_all [NodeData.parts])
      exact (supertype_composed h hf x).mono fun _ => hin.trans
    have hmembers (owner : Owner) (scope : LocalScope) :=
      members_composed h owner scope fun _ hx => hf.inside_of_mem_classMembers hd hx
    split
    · rename_i parameters hconstructor
      have hparameters : ∀ x ∈ parameters, s.forest.Inside id x := by
        -- The constructor's data is that of a node among the parts of the class.
        intro x hx
        cases hp : declaration.primaryConstructor with
        | none => simp [hp, Forest.data, Forest.node?] at hconstructor
        | some primary =>
          rw [hp] at hconstructor
          exact (hparts primary (by simp [NodeData.parts, hp])).trans
            (hf.inside_of_mem_parts hconstructor (by simpa [NodeData.parts] using hx))
      refine .bind_collect (parameters_composed h hf _ hparameters) (fun _ => hsupertypes)
        fun supertypes scope => ?_
      exact (Composed.inFrame _ (hmembers _ scope)).seq (.pure _)
    · refine hsupertypes.collect fun supertypes scope => ?_
      exact (Composed.inFrame _ (hmembers _ scope)).seq (.pure _)
  · exact .pure _

/-- The declarations, types and expressions in what is kept as source are its children. -/
theorem keptSource_composed (h : rec.Composed s) (hf : s.forest.Linked) (id : NodeId) :
    Composed s (s.forest.Inside id) (s.keptSource rec id) := by
  refine .forM fun child hchild => ?_
  have hin := hf.inside_of_mem_children (Array.mem_toList_iff.mp hchild)
  have hsome : ∀ x ∈ some child, s.forest.Inside id x := fun x hx => Option.some.inj hx ▸ hin
  split
  · exact h.declaration .block hin
  · exact h.declaration .block hin
  · exact h.declaration .block hin
  · exact h.declaration .block hin
  · exact (typeUse_composed hf hsome).discard
  · exact (h.typeOf hsome).discard
  · exact .pure _

/-- A declaration is attributed about nodes in its own tree, one kind at a time. -/
theorem declaration_composed (h : rec.Composed s) (hf : s.forest.Linked) (owner : Owner)
    (id : NodeId) : Composed s (s.forest.Inside id) (s.declaration rec owner id) := by
  unfold declaration
  split
  · exact (classUse_composed h hf id).discard
  · exact (classUse_composed h hf id).discard
  · exact function_composed h hf owner id
  · exact function_composed h hf owner id
  · exact property_composed h hf owner id
  · exact .forM fun x hx =>
      ((block_composed h hf x).mono fun _ => (childrenOf_inside hf x hx).trans).discard
  · exact keptSource_composed h hf id
  · exact .pure _

end KotlinTree.Attribution.Setting
