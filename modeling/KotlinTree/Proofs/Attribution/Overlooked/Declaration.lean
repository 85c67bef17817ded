import KotlinTree.Proofs.Attribution.Overlooked.Part

/-!
From a child to its parent where the parent is a written type or a declaration.
-/

namespace KotlinTree

namespace Forest

variable {f : Forest} {top mid x : NodeId}

/-- A type written directly inside another is among those that are looked at with it. -/
theorem Linked.mem_typeReferences_of_inner (hf : f.Linked) (hmid : mid ∈ f.typeReferences top)
    (hx : x ∈ f.innerTypeReferences mid) (htype : f.isTypeReference x) : x ∈ f.typeReferences top := by
  have hself : x ∈ f.typeReferences x := by
    rw [hf.typeReferences_eq htype]
    exact List.mem_cons_self
  induction top using Nat.strongRecOn with
  | ind top ih =>
    by_cases htop : f.isTypeReference top
    · rw [hf.typeReferences_eq htop] at hmid ⊢
      refine List.mem_cons_of_mem _ (List.mem_flatMap.mpr ?_)
      rcases List.mem_cons.mp hmid with rfl | hmid
      · exact ⟨x, hx, hself⟩
      · obtain ⟨inner, hinner, hmid⟩ := List.mem_flatMap.mp hmid
        have hlt := hf.lt_of_beneath (hf.beneath_of_mem_innerTypeReferences hinner)
        exact ⟨inner, hinner, ih inner hlt hmid⟩
    · rw [typeReferences_of_not htop] at hmid
      exact absurd hmid List.not_mem_nil

end Forest

namespace Attribution.Setting.FindsPart

variable {s : Setting} {d : Diagnostic} {p x : NodeId} {c : Around} {k : NodeKind} {n : Nat}

theorem typeReference (h : s.FindsPart d p x c .typeReference) (hn : p ≤ n) {t : TypeReference}
    (hd : s.forest.data (some p) = .typeReference t) : s.FindsAt (s.tasks n) d p c .typeReference := by
  have hstands : s.forest.IsOf [.typeReference] x ∨ s.forest.IsOf [.typeArgumentList] x := by
    simpa [hd, NodeData.slots, h.written] using h.stands
  have hnames : s.namesInside p x c = c := by simp [namesInside, hd]
  intro top hp
  rcases hstands with hx | hx
  · have htype : s.forest.isTypeReference x := by simp [Forest.isTypeReference, hx.kind]
    refine hnames ▸ h.noCode hn hx (by decide) top (h.linked.mem_typeReferences_of_inner hp ?_ htype)
    exact List.mem_flatMap.mpr ⟨x, Array.mem_toList_iff.mpr h.child, by simp [hx.kind]⟩
  · exact hnames ▸ h.noCode hn hx (by decide) top p hp h.child

theorem typeArgumentList (h : s.FindsPart d p x c .typeArgumentList) (hn : p ≤ n)
    (hd : s.forest.data (some p) = .plain) : s.FindsAt (s.tasks n) d p c .typeArgumentList := by
  have hx : s.forest.IsOf [.typeReference] x := by
    simpa [hd, NodeData.slots, h.written] using h.stands
  have hnames : s.namesInside p x c = c := by simp [namesInside, hd]
  intro top id hid hp
  have htype : s.forest.isTypeReference x := by simp [Forest.isTypeReference, hx.kind]
  refine hnames ▸ h.noCode hn hx (by decide) top (h.linked.mem_typeReferences_of_inner hid ?_ htype)
  exact List.mem_flatMap.mpr ⟨p, Array.mem_toList_iff.mpr hp, by simp [h.kind, h.child, htype]⟩

theorem parameter (h : s.FindsPart d p x c .parameter) (hn : p ≤ n) {e : Parameter}
    (hd : s.forest.data (some p) = .parameter e) : s.FindsAt (s.tasks n) d p c .parameter := by
  have hstands : x ∈ e.typeRef ∧ s.forest.IsOf [.typeReference] x ∨
      x ∈ e.defaultValue ∧ s.forest.IsOf NodeKind.codes x := by
    simpa [hd, NodeData.slots, h.written] using h.stands
  have hnames : s.namesInside p x c = c := by simp [namesInside, hd]
  intro owner
  refine (parameter_reports (tasks_proceed s n) owner p).finds c ⟨e, hd, ?_⟩
  rcases hstands with ⟨hmem, htype⟩ | ⟨hmem, hcode⟩
  · exact .inl ⟨x, hmem, hnames ▸ h.type hn htype⟩
  · exact .inr ⟨x, hmem, h.inner hn (by decide) hcode (by simp [isLevel, hd, h.kind]) hnames⟩

theorem primaryConstructor (h : s.FindsPart d p x c .primaryConstructor) (hn : p ≤ n)
    {parameters : Array NodeId} (hd : s.forest.data (some p) = .primaryConstructor parameters) :
    s.FindsAt (s.tasks n) d p c .primaryConstructor := by
  obtain ⟨hmem, hx⟩ : x ∈ parameters ∧ s.forest.IsOf [.parameter] x := by
    simpa [hd, NodeData.slots, h.written] using h.stands
  have hnames : s.namesInside p x c = c := by simp [namesInside, hd]
  intro parameters' hd' owner
  cases hd.symm.trans hd'
  exact (parameters_reports (tasks_proceed s n) owner _).finds c
    ⟨x, hmem, hnames ▸ h.noCode hn hx (by decide) owner⟩

/-- What is found in the body of a function. -/
theorem body (h : s.FindsPart d p x c k) (hn : p ≤ n) (hk : k ∉ [NodeKind.sourceFile, .classBody])
    {f : FunctionDeclaration} (hd : s.forest.data (some p) = .function f) (hbody : f.body = some x)
    (hx : s.forest.IsOf (NodeKind.bodies f.isExpressionBody) x) :
    Finds d (s.body (s.tasks n) f) (s.namesInside p x c) := by
  refine (body_reports (tasks_proceed s n) f).finds _ ⟨x, hbody, ?_⟩
  cases hexpression : f.isExpressionBody <;> rw [hexpression] at hx
  · have hat := h.finds n (h.lt hn).le _ (Forest.IsOf.kind hx)
    rw [around_level (by simp [isLevel, hd, hbody, hexpression])] at hat
    exact hat
  · exact h.expression hn hk hx (by simp [isLevel, hd, hexpression])

/-- Nothing is found in type parameters. -/
theorem not_typeParameters (h : s.FindsPart d p x c k) (hn : p ≤ n) :
    ¬s.forest.IsOf [.typeParameterList] x := fun hx =>
  h.finds n (h.lt hn).le _ hx.kind

/-- What is found in a part that both functions and constructors have. -/
theorem functionPart (h : s.FindsPart d p x c k) (hn : p ≤ n)
    (hk : k ∉ [NodeKind.sourceFile, .classBody]) {f : FunctionDeclaration}
    (hd : s.forest.data (some p) = .function f)
    (hx : s.forest.IsOf [.typeParameterList] x ∨
      x ∈ f.parameters ∧ s.forest.IsOf [.parameter] x ∨
      x ∈ f.returnType ∧ s.forest.IsOf [.typeReference] x ∨
      x ∈ f.body ∧ s.forest.IsOf (NodeKind.bodies f.isExpressionBody) x) :
    s.FunctionFinds (s.tasks n) d p f (s.namesInside p x c) := by
  rcases hx with hx | ⟨hmem, hx⟩ | ⟨hmem, hx⟩ | ⟨hmem, hx⟩
  · exact absurd hx (h.not_typeParameters hn)
  · have hat := h.noCode hn hx (by decide) none
    exact .inr (.inr (.inl ((parameters_reports (tasks_proceed s n) none _).finds _ ⟨x, hmem, hat⟩)))
  · exact .inr (.inl ⟨x, hmem, h.type hn hx⟩)
  · exact .inr (.inr (.inr (.inr (h.body hn hk hd hmem hx))))

theorem finds_function (h : s.FindsPart d p x c k)
    (hk : k = .functionDeclaration ∨ k = .secondaryConstructor) {f : FunctionDeclaration}
    (hd : s.forest.data (some p) = .function f) (owner : Owner)
    (hfinds : s.FunctionFinds (s.tasks n) d p f (s.namesInside p x c)) :
    Finds d (s.function (s.tasks n) owner p) c := by
  have hnames : s.namesInside p x c = c.withTypeParameters (s.forest.typeParameterNames f.typeParameters) := by
    have hkind := h.kind
    rcases hk with rfl | rfl <;> simp [namesInside, hd, hkind]
  exact (function_reports (tasks_proceed s n) owner p).finds c ⟨f, hd, hnames ▸ hfinds⟩

theorem functionDeclaration (h : s.FindsPart d p x c .functionDeclaration) (hn : p ≤ n)
    {f : FunctionDeclaration} (hd : s.forest.data (some p) = .function f) :
    s.FindsAt (s.tasks n) d p c .functionDeclaration := by
  have hstands : (s.forest.IsOf [.typeParameterList] x ∨
      x ∈ f.parameters ∧ s.forest.IsOf [.parameter] x ∨
      x ∈ f.returnType ∧ s.forest.IsOf [.typeReference] x ∨
      x ∈ f.body ∧ s.forest.IsOf (NodeKind.bodies f.isExpressionBody) x) ∨
      s.forest.IsOf [.typeReference] x ∨ x ∈ f.receiverType ∧ s.forest.IsOf [.typeReference] x := by
    simpa [hd, NodeData.slots, h.written, or_assoc] using h.stands
  refine fun owner => h.finds_function (.inl rfl) hd owner ?_
  rcases hstands with hcommon | hany
  · exact h.functionPart hn (by decide) hd hcommon
  · -- A type in no particular place is a constraint, unless it is one of the two that the function knows.
    have hx : s.forest.IsOf [.typeReference] x := hany.elim id And.right
    have htype := h.type hn hx
    by_cases hreceiver : f.receiverType = some x
    · exact .inl ⟨x, hreceiver, htype⟩
    by_cases hreturn : f.returnType = some x
    · exact .inr (.inl ⟨x, hreturn, htype⟩)
    exact absurd (.constraint h.kind hd hreceiver hreturn hx.kind) h.noticed

theorem secondaryConstructor (h : s.FindsPart d p x c .secondaryConstructor) (hn : p ≤ n)
    {f : FunctionDeclaration} (hd : s.forest.data (some p) = .function f) :
    s.FindsAt (s.tasks n) d p c .secondaryConstructor := by
  have hstands : (s.forest.IsOf [.typeParameterList] x ∨
      x ∈ f.parameters ∧ s.forest.IsOf [.parameter] x ∨
      x ∈ f.returnType ∧ s.forest.IsOf [.typeReference] x ∨
      x ∈ f.body ∧ s.forest.IsOf (NodeKind.bodies f.isExpressionBody) x) ∨
      s.forest.IsOf NodeKind.codes x ∧ (f.body = some x →
        s.forest.IsOf (NodeKind.bodies f.isExpressionBody) x) := by
    simpa [hd, NodeData.slots, h.written, or_assoc] using h.stands
  refine fun owner => h.finds_function (.inr rfl) hd owner ?_
  rcases hstands with hcommon | ⟨hcode, hbody⟩
  · exact h.functionPart hn (by decide) hd hcommon
  by_cases hmem : f.body = some x
  · exact h.functionPart hn (by decide) hd (.inr (.inr (.inr ⟨hmem, hbody hmem⟩)))
  -- What stands beside the body is looked into only if it is a call.
  have hx : s.forest.kind? (some x) = some (.node .callExpression) := by
    by_contra hother
    exact h.noticed (.delegation h.kind hd (isCode hcode) hmem hother)
  have hfinds := h.expression hn (by decide) hcode (by simp [isLevel, hd, hmem])
  refine .inr (.inr (.inr (.inl ((delegation_reports (tasks_proceed s n) p f.body).finds _ ?_))))
  refine ⟨h.kind, x, List.mem_filter.mpr ⟨Array.mem_toList_iff.mpr h.child, by simp [hx]⟩, ?_, hfinds⟩
  exact Ne.symm hmem

theorem propertyAccessor (h : s.FindsPart d p x c .propertyAccessor) (hn : p ≤ n)
    {f : FunctionDeclaration} (hd : s.forest.data (some p) = .function f) :
    s.FindsAt (s.tasks n) d p c .propertyAccessor := by
  have hstands : s.forest.IsOf [.typeParameterList] x ∨
      x ∈ f.parameters ∧ s.forest.IsOf [.parameter] x ∨
      x ∈ f.returnType ∧ s.forest.IsOf [.typeReference] x ∨
      x ∈ f.body ∧ s.forest.IsOf (NodeKind.bodies f.isExpressionBody) x := by
    simpa [hd, NodeData.slots, h.written, or_assoc] using h.stands
  have hnames : s.namesInside p x c = c := by simp [namesInside, hd, h.kind]
  refine fun type => (accessor_reports (tasks_proceed s n) type p).finds c ⟨f, hd, ?_⟩
  rcases hstands with hx | ⟨hmem, hx⟩ | ⟨hmem, hx⟩ | ⟨hmem, hx⟩
  · exact absurd hx (h.not_typeParameters hn)
  · exact .inl ⟨x, hmem, hnames ▸ h.noCode hn hx (by decide) none⟩
  · exact .inr (.inl ⟨x, hmem, hnames ▸ h.type hn hx⟩)
  · exact .inr (.inr (hnames ▸ h.body hn (by decide) hd hmem hx))

/-- What is found after the word for a delegate. -/
theorem delegate (h : s.FindsPart d p x c k) (hn : p ≤ n) (hk : k ∉ [NodeKind.sourceFile, .classBody])
    (hx : s.forest.Suits (s.forest.children (some p)) x .delegate) (hlevel : s.isLevel p x = false) :
    ∃ y ∈ s.nodeAfter? p .byKeyword, (s.tasks n).Finds d y (s.namesInside p x c) := by
  obtain ⟨hcode, before, word, after, hchildren, hword, hbefore⟩ := hx
  refine ⟨x, ?_, h.expression hn hk hcode hlevel⟩
  have hdrop : (before ++ word :: x :: after).dropWhile
      (fun child => s.forest.kind? (some child) ≠ some (.token .byKeyword)) = word :: x :: after := by
    rw [List.dropWhile_append_of_pos (by simpa using hbefore)]
    simp [hword]
  simp only [nodeAfter?, hchildren, hdrop]
  rfl

theorem propertyDeclaration (h : s.FindsPart d p x c .propertyDeclaration) (hn : p ≤ n)
    {e : PropertyDeclaration} (hd : s.forest.data (some p) = .property e) :
    s.FindsAt (s.tasks n) d p c .propertyDeclaration := by
  have hstands : s.forest.IsOf [.typeParameterList] x ∨ s.forest.IsOf [.propertyAccessor] x ∨
      s.forest.Suits (s.forest.children (some p)) x .delegate ∨
      x ∈ e.receiverType ∧ s.forest.IsOf [.typeReference] x ∨
      x ∈ e.typeRef ∧ s.forest.IsOf [.typeReference] x ∨
      x ∈ e.initializer ∧ s.forest.IsOf NodeKind.codes x := by
    simpa [hd, NodeData.slots, h.written, or_assoc] using h.stands
  have hnames : s.namesInside p x c = c.withTypeParameters (s.forest.propertyTypeParameters p) := by
    simp [namesInside, hd]
  have hlevel : s.isLevel p x = false := by simp [isLevel, hd, h.kind]
  refine fun owner => (property_reports (tasks_proceed s n) owner p).finds c ⟨e, hd, hnames ▸ ?_⟩
  rcases hstands with hx | hx | hx | ⟨hmem, hx⟩ | ⟨hmem, hx⟩ | ⟨hmem, hx⟩
  · exact absurd hx (h.not_typeParameters hn)
  · refine .inr (.inr (.inr (.inr ⟨x, ?_, h.noCode hn hx (by decide)⟩)))
    exact List.mem_filter.mpr ⟨Array.mem_toList_iff.mpr h.child, by simp [hx.kind]⟩
  · exact .inr (.inr (.inr (.inl (h.delegate hn (by decide) hx hlevel))))
  · exact .inl ⟨x, hmem, h.type hn hx⟩
  · exact .inr (.inl ⟨x, hmem, h.type hn hx⟩)
  · exact .inr (.inr (.inl ⟨x, hmem, h.expression hn (by decide) hx hlevel⟩))

theorem supertypeEntry (h : s.FindsPart d p x c .supertypeEntry) (hn : p ≤ n) {e : SupertypeEntry}
    (hd : s.forest.data (some p) = .supertypeEntry e) : s.FindsAt (s.tasks n) d p c .supertypeEntry := by
  -- The part is what the supertype delegates to, the type, or the list of arguments.
  have hstands : s.forest.Suits (s.forest.children (some p)) x .delegate ∨
      x = e.typeRef ∧ s.forest.IsOf [.typeReference] x ∨
      x ∈ e.arguments ∧ s.forest.IsOf [.valueArgumentList] x := by
    simpa [hd, NodeData.slots, h.written, or_assoc] using h.stands
  have hnames : s.namesInside p x c = c := by simp [namesInside, hd]
  refine (supertype_reports (tasks_proceed s n) p).finds c ⟨e, hd, ?_⟩
  rcases hstands with hx | ⟨rfl, hx⟩ | ⟨hmem, hx⟩
  · exact .inr (.inr (hnames ▸ h.delegate hn (by decide) hx (by simp [isLevel, hd, h.kind])))
  · exact .inl (hnames ▸ h.type hn hx)
  · have harguments : e.arguments = some x := hmem
    -- A list of arguments has none but arguments and what has no type.
    have hall : ∀ a ∈ s.forest.children (some x),
        s.forest.Typeless a ∨ a ∈ s.childrenOf e.arguments .valueArgument := by
      intro a ha
      have hfills := (h.shaped.at_kind hx.kind rfl).1
      rw [h.linked.plain_of_valueArgumentList hx.kind] at hfills
      refine (hfills a ha).elim (fun hplain => .inl hplain.typeless) fun hstands => ?_
      have hstands : s.forest.Typeless a ∨ s.forest.IsOf [.valueArgument] a := by
        simpa [NodeData.slots] using hstands
      exact hstands.imp_right fun hargument =>
        List.mem_filter.mpr ⟨by simpa [harguments] using ha, by simp [hargument.kind]⟩
    exact .inr (.inl (hnames ▸ h.noCode hn hx (by decide) _ hall))

theorem classDeclaration (hk : k = .classDeclaration ∨ k = .objectDeclaration) (h : s.FindsPart d p x c k)
    (hn : p ≤ n) {e : ClassDeclaration} (hd : s.forest.data (some p) = .classDeclaration e) :
    s.FindsAt (s.tasks n) d p c k := by
  -- The part is one of four; type parameters are overlooked, and the others lead on.
  have hstands : s.forest.IsOf [.typeParameterList] x ∨
      x ∈ e.primaryConstructor ∧ s.forest.IsOf [.primaryConstructor] x ∨
      x ∈ e.supertypes ∧ s.forest.IsOf [.supertypeEntry] x ∨
      x ∈ e.body ∧ s.forest.IsOf [.classBody] x := by
    simpa [hd, NodeData.slots, h.written, or_assoc] using h.stands
  have hfinds : s.ClassFinds (s.tasks n) d e
      ((c.withTypeParameters (s.forest.typeParameterNames e.typeParameters)).inClass
        (s.unit.classNames.lookup p)) := by
    rcases hstands with hx | ⟨hmem, hx⟩ | ⟨hmem, hx⟩ | ⟨hmem, hx⟩
    · exact absurd hx (h.not_typeParameters hn)
    all_goals
      have hat := h.noCode hn hx (by decide)
      simp only [namesInside, hd, hx.kind] at hat
    · obtain ⟨parameters, hparameters⟩ := h.linked.exists_primaryConstructor hx.kind
      have hconstructor : e.primaryConstructor = some x := hmem
      exact .inl ⟨parameters, hconstructor ▸ hparameters, hat parameters hparameters⟩
    · exact .inr (.inl ⟨x, Array.mem_toList_iff.mpr hmem, hat⟩)
    · have hbody : e.body = some x := hmem
      exact .inr (.inr (hbody ▸ hat))
  have hreports := (classUse_reports (tasks_proceed s n) p).finds c ⟨e, hd, hfinds⟩
  rcases hk with rfl | rfl <;> exact hreports

theorem classBody (h : s.FindsPart d p x c .classBody) (hn : p ≤ n) {members : Array NodeId}
    (hd : s.forest.data (some p) = .classBody members) : s.FindsAt (s.tasks n) d p c .classBody := by
  obtain ⟨hmem, hx⟩ : x ∈ members ∧ s.forest.IsOf NodeKind.declarations x := by
    simpa [hd, NodeData.slots, h.written] using h.stands
  have hfinds := h.finds
  rw [around_level (by simp [isLevel, hd])] at hfinds
  simp only [namesInside, hd] at hfinds
  intro owner scope
  refine (members_reports (tasks_proceed s n) owner scope _).finds c ⟨x, ?_, ?_⟩
  · simpa [Forest.classMembers, hd] using hmem
  · exact finds_declaration hfinds (h.lt hn) owner hx

theorem anonymousInitializer (h : s.FindsPart d p x c .anonymousInitializer) (hn : p ≤ n)
    (hd : s.forest.data (some p) = .plain) : s.FindsAt (s.tasks n) d p c .anonymousInitializer := by
  have hx : s.forest.IsOf [.block] x := by
    simpa [hd, NodeData.slots, h.written] using h.stands
  have hat : Finds d (s.block (s.tasks n) x) (s.aroundChild p x c) := h.finds n (h.lt hn).le _ hx.kind
  rw [around_level (by simp [isLevel, hd, h.kind])] at hat
  simp only [namesInside, hd] at hat
  intro owner
  refine (declaration_reports (tasks_proceed s n) owner p).finds c (.inr (.inr (.inr ⟨h.kind, x, ?_, hat⟩)))
  exact List.mem_filter.mpr ⟨Array.mem_toList_iff.mpr h.child, by simp [hx.kind]⟩

end Attribution.Setting.FindsPart

end KotlinTree
