import KotlinTree.Proofs.Attribution.Name
import KotlinTree.Proofs.Attribution.Overlooked

/-!
From a child to its parent: what is found in a child is found in its parent, unless the child is passed
over. There is one case for each kind of node that has parts with types.
-/

namespace KotlinTree.Attribution.Setting

/-- Something is found in a child that has types in it and is not passed over. -/
structure FindsPart (s : Setting) (d : Diagnostic) (p x : NodeId) (c : Around) (k : NodeKind) : Prop where
  linked : s.forest.Linked
  shaped : s.forest.Shaped
  kind : s.forest.kind? (some p) = some (.node k)
  child : x ∈ s.forest.children (some p)
  stands : s.forest.Holds (s.forest.children (some p)) ((s.forest.data (some p)).slots k) x
  written : ¬s.forest.Typeless x
  noticed : ¬s.Overlooks c p x
  depth : (s.aroundChild p x c).depth ≤ maxDepth
  finds : s.FindsIn d x (s.aroundChild p x c)

namespace FindsPart

variable {s : Setting} {d : Diagnostic} {p x : NodeId} {c : Around} {k k' : NodeKind} {n : Nat}

theorem lt (h : s.FindsPart d p x c k) (hn : p ≤ n) : x < n :=
  (h.linked.lt_of_isChild (h.linked.isChild_of_mem_children h.child)).trans_le hn

/-- What is found in a child that is no code. -/
theorem noCode (h : s.FindsPart d p x c k) (hn : p ≤ n) (hx : s.forest.IsOf [k'] x)
    (hcode : NodeKind.codes.contains k' = false) : s.FindsAt (s.tasks n) d x (s.namesInside p x c) k' := by
  have hat := h.finds n (h.lt hn).le k' hx.kind
  have hcode : s.forest.isCode x = false := by simpa [Forest.isCode, hx.kind] using hcode
  rwa [aroundChild, hcode, Bool.false_and, if_neg Bool.false_ne_true] at hat

/-- Only files and classes have constructors and initializers. -/
theorem not_stray (h : s.FindsPart d p x c k) (hk : k ∉ [NodeKind.sourceFile, .classBody])
    (hx : s.forest.kind? (some x) = some (.node k')) :
    ¬(k' = .secondaryConstructor ∨ k' = .anonymousInitializer) := by
  simp only [List.mem_cons, List.not_mem_nil, or_false, not_or] at hk
  refine fun hstray => h.noticed (.stray hstray hx ?_ ?_) <;> rw [h.kind]
  · exact fun heq => hk.1 (Kind.node.inj (Option.some.inj heq))
  · exact fun heq => hk.2 (Kind.node.inj (Option.some.inj heq))

theorem isCode (hx : s.forest.IsOf NodeKind.codes x) : s.forest.isCode x = true := by
  obtain ⟨k, hcode, hk⟩ := hx
  simpa [Forest.isCode, hk] using hcode

/-- What surrounds a part that counts as deeper. -/
theorem around_deeper (hx : s.forest.IsOf NodeKind.codes x) (hlevel : s.isLevel p x = false) :
    s.aroundChild p x c = (s.namesInside p x c).deeper := by
  rw [aroundChild, isCode hx, hlevel]
  rfl

theorem around_level (hlevel : s.isLevel p x = true) : s.aroundChild p x c = s.namesInside p x c := by
  rw [aroundChild, hlevel, Bool.not_true, Bool.and_false, if_neg Bool.false_ne_true]

theorem depth_lt (h : s.FindsPart d p x c k) (hx : s.forest.IsOf NodeKind.codes x)
    (hlevel : s.isLevel p x = false) : (s.namesInside p x c).depth < maxDepth := by
  have hdepth := h.depth
  rwa [around_deeper hx hlevel] at hdepth

/-- What is found in an expression. -/
theorem expression (h : s.FindsPart d p x c k) (hn : p ≤ n)
    (hk : k ∉ [NodeKind.sourceFile, .classBody]) (hx : s.forest.IsOf NodeKind.codes x)
    (hlevel : s.isLevel p x = false) :
    (s.tasks n).Finds d x (s.namesInside p x c) := by
  have hfinds := h.finds
  rw [around_deeper hx hlevel] at hfinds
  obtain ⟨k', hcode, hx⟩ := hx
  exact finds_expression h.linked hfinds (h.lt hn) (h.depth_lt ⟨k', hcode, hx⟩ hlevel) hx hcode
    (h.not_stray hk hx)

/-- What is found before a name. -/
theorem qualifier (h : s.FindsPart d p x c k) (hn : p ≤ n)
    (hk : k ∉ [NodeKind.sourceFile, .classBody]) (hx : s.forest.IsOf NodeKind.codes x)
    (hlevel : s.isLevel p x = false) :
    Finds d (s.tasks n (.qualifier x)) (s.namesInside p x c) := by
  have hfinds := h.finds
  rw [around_deeper hx hlevel] at hfinds
  obtain ⟨k', hcode, hx⟩ := hx
  exact finds_qualifier h.linked hfinds (h.lt hn) (h.depth_lt ⟨k', hcode, hx⟩ hlevel) hx hcode
    (h.not_stray hk hx)

/-- What is found in a statement. -/
theorem statement (h : s.FindsPart d p x c k) (hn : p ≤ n)
    (hk : k ∉ [NodeKind.sourceFile, .classBody]) (hx : s.forest.IsOf NodeKind.codes x)
    (hlevel : s.isLevel p x = s.standsAlone x) :
    Finds d (s.tasks n (.statement x)) (s.namesInside p x c) := by
  have hfinds : s.FindsIn d x
      (if s.standsAlone x then s.namesInside p x c else (s.namesInside p x c).deeper) := by
    cases halone : s.standsAlone x
    · exact around_deeper hx (hlevel.trans halone) ▸ h.finds
    · exact around_level (c := c) (hlevel.trans halone) ▸ h.finds
  have hdepth (halone : s.standsAlone x = false) := h.depth_lt hx (hlevel.trans halone)
  obtain ⟨k', hcode, hx⟩ := hx
  exact finds_statement h.linked hfinds (h.lt hn) hdepth hx hcode (h.not_stray hk hx)

/-- What is found in a written type. -/
theorem type (h : s.FindsPart d p x c k) (hn : p ≤ n) (hx : s.forest.IsOf [.typeReference] x) :
    Finds d (s.typeUse (some x)) (s.namesInside p x c) := by
  refine h.noCode hn hx (by decide) x ?_
  rw [h.linked.typeReferences_eq (by simp [Forest.isTypeReference, hx.kind])]
  exact List.mem_cons_self

/-- What is found in an expression that no names are made known for. -/
theorem inner (h : s.FindsPart d p x c k) (hn : p ≤ n) (hk : k ∉ [NodeKind.sourceFile, .classBody])
    (hx : s.forest.IsOf NodeKind.codes x) (hlevel : s.isLevel p x = false)
    (hnames : s.namesInside p x c = c) : (s.tasks n).Finds d x c := by
  have hfinds := h.expression hn hk hx hlevel
  rwa [hnames] at hfinds

-- Every case below takes these apart, so their equations are made ready once.
attribute [local simp] FindsAt nodeType

theorem block (h : s.FindsPart d p x c .block) (hn : p ≤ n) {statements : Array NodeId}
    (hd : s.forest.data (some p) = .block statements) : s.FindsAt (s.tasks n) d p c .block := by
  obtain ⟨hmem, hcode⟩ : x ∈ statements ∧ s.forest.IsOf NodeKind.codes x := by
    simpa [hd, NodeData.slots, h.written] using h.stands
  have hfinds := h.statement hn (by decide) hcode (by simp [isLevel, hd])
  simp only [namesInside, hd] at hfinds
  exact (block_reports (tasks_proceed s n) p).finds c ⟨statements, hd, x, hmem, hfinds⟩

theorem returnStatement (h : s.FindsPart d p x c .returnStatement) (hn : p ≤ n) {value : Option NodeId}
    (hd : s.forest.data (some p) = .returnStatement value) :
    s.FindsAt (s.tasks n) d p c .returnStatement := by
  obtain ⟨hmem, hcode⟩ : x ∈ value ∧ s.forest.IsOf NodeKind.codes x := by
    simpa [hd, NodeData.slots, h.written] using h.stands
  have hfinds := h.inner hn (by decide) hcode (by simp [isLevel, hd, h.kind]) (by simp [namesInside, hd])
  simp only [FindsAt, nodeType, hd]
  exact (((tasks_proceed s n).typeOf value).bind_first fun _ => .pure _).finds c ⟨x, hmem, hfinds⟩

theorem assignment (h : s.FindsPart d p x c .assignment) (hn : p ≤ n) {a : Assignment}
    (hd : s.forest.data (some p) = .assignment a) : s.FindsAt (s.tasks n) d p c .assignment := by
  obtain ⟨hmem, hcode⟩ : x ∈ a.target :: a.value.toList ∧ s.forest.IsOf NodeKind.codes x := by
    simpa [hd, NodeData.slots, h.written] using h.stands
  have hfinds := h.inner hn (by decide) hcode (by simp [isLevel, hd, h.kind]) (by simp [namesInside, hd])
  intro a' hd'
  cases hd.symm.trans hd'
  exact (assignment_reports (tasks_proceed s n) a).finds c ⟨x, hmem, hfinds⟩

theorem ifExpression (h : s.FindsPart d p x c .ifExpression) (hn : p ≤ n) {i : IfExpression}
    (hd : s.forest.data (some p) = .ifExpression i) : s.FindsAt (s.tasks n) d p c .ifExpression := by
  obtain ⟨hmem, hcode⟩ : (x ∈ i.condition ∨ x ∈ i.thenBranch ∨ x ∈ i.elseBranch) ∧
      s.forest.IsOf NodeKind.codes x := by
    simpa [hd, NodeData.slots, h.written] using h.stands
  simp only [FindsAt, nodeType, hd]
  refine (choice_reports (tasks_proceed s n) i).finds c ?_
  -- The condition is an expression, even if it looks like a statement; the branches are statements.
  by_cases hcondition : i.condition = some x
  · have hlevel : s.isLevel p x = false := by simp [isLevel, hd, hcondition]
    exact .inl ⟨x, hcondition, h.inner hn (by decide) hcode hlevel (by simp [namesInside, hd])⟩
  · have hlevel : s.isLevel p x = s.standsAlone x := by simp [isLevel, hd, hcondition]
    have hfinds := h.statement hn (by decide) hcode hlevel
    simp only [namesInside, hd] at hfinds
    exact .inr ((hmem.resolve_left hcondition).imp (fun hx => ⟨x, hx, hfinds⟩) fun hx => ⟨x, hx, hfinds⟩)

theorem jumpExpression (h : s.FindsPart d p x c .jumpExpression) (hn : p ≤ n)
    (hd : s.forest.data (some p) = .plain) : s.FindsAt (s.tasks n) d p c .jumpExpression := by
  have hcode : s.forest.IsOf NodeKind.codes x := by
    simpa [hd, NodeData.slots, h.written] using h.stands
  have hfinds := h.inner hn (by decide) hcode (by simp [isLevel, hd, h.kind]) (by simp [namesInside, hd])
  have hthrown := ((h.shaped.at_kind h.kind rfl).2 rfl x h.child).resolve_left h.written
  simp only [FindsAt, nodeType]
  exact ((jump_reports (tasks_proceed s n) p).bind_first fun _ => .pure _).finds c
    ⟨hthrown.1, x, hthrown.2, hfinds⟩

theorem parenthesized (h : s.FindsPart d p x c .parenthesizedExpression) (hn : p ≤ n)
    {operand : Option NodeId} (hd : s.forest.data (some p) = .parenthesized operand) :
    s.FindsAt (s.tasks n) d p c .parenthesizedExpression := by
  obtain ⟨hmem, hcode⟩ : x ∈ operand ∧ s.forest.IsOf NodeKind.codes x := by
    simpa [hd, NodeData.slots, h.written] using h.stands
  have hfinds := h.inner hn (by decide) hcode (by simp [isLevel, hd, h.kind]) (by simp [namesInside, hd])
  simp only [FindsAt, nodeType, hd]
  exact ((tasks_proceed s n).typeOf operand).finds c ⟨x, hmem, hfinds⟩

theorem binary (hk : k = .binaryExpression ∨ k = .elvisExpression) (h : s.FindsPart d p x c k)
    (hn : p ≤ n) {b : BinaryExpression} (hd : s.forest.data (some p) = .binary b) :
    s.FindsAt (s.tasks n) d p c k := by
  obtain ⟨hmem, hcode⟩ : x ∈ b.left :: b.right.toList ∧ s.forest.IsOf NodeKind.codes x := by
    simpa [hd, NodeData.slots, h.written] using h.stands
  have hkind := h.kind
  rcases hk with rfl | rfl
  all_goals
    have hfinds := h.inner hn (by decide) hcode (by simp [isLevel, hd, hkind]) (by simp [namesInside, hd])
    simp only [FindsAt, nodeType, hd]
  · exact (binary_reports (tasks_proceed s n) b).finds c ⟨x, hmem, hfinds⟩
  · exact (elvis_reports (tasks_proceed s n) b).finds c ⟨x, hmem, hfinds⟩

theorem unary (hk : k = .prefixUnaryExpression ∨ k = .postfixUnaryExpression) (h : s.FindsPart d p x c k)
    (hn : p ≤ n) {u : UnaryExpression} (hd : s.forest.data (some p) = .unary u) :
    s.FindsAt (s.tasks n) d p c k := by
  obtain ⟨hmem, hcode⟩ : x ∈ u.operand ∧ s.forest.IsOf NodeKind.codes x := by
    simpa [hd, NodeData.slots, h.written] using h.stands
  have hkind := h.kind
  rcases hk with rfl | rfl
  all_goals
    have hfinds := h.inner hn (by decide) hcode (by simp [isLevel, hd, hkind]) (by simp [namesInside, hd])
    simp only [FindsAt, nodeType, hd]
    exact (unary_reports (tasks_proceed s n) u).finds c ⟨x, hmem, hfinds⟩

theorem typeOperation (hk : k = .asExpression ∨ k = .isExpression) (h : s.FindsPart d p x c k)
    (hn : p ≤ n) {o : TypeOperation} (hd : s.forest.data (some p) = .typeOperation o) :
    s.FindsAt (s.tasks n) d p c k := by
  have hstands : x = o.expression ∧ s.forest.IsOf NodeKind.codes x ∨
      x ∈ o.typeRef ∧ s.forest.IsOf [.typeReference] x := by
    simpa [hd, NodeData.slots, h.written] using h.stands
  have hnames : s.namesInside p x c = c := by simp [namesInside, hd]
  have hkind := h.kind
  have hfinds : (s.tasks n).Finds d o.expression c ∨ ∃ y ∈ o.typeRef, Finds d (s.typeUse (some y)) c := by
    rcases hstands with ⟨rfl, hcode⟩ | ⟨hmem, htype⟩
    · refine .inl (h.inner hn ?_ hcode ?_ hnames) <;> rcases hk with rfl | rfl
      iterate 2 decide
      iterate 2 simp [isLevel, hd, hkind]
    · exact .inr ⟨x, hmem, hnames ▸ h.type hn htype⟩
  have hreports := (typeOperation_reports (s := s) (d := d) (tasks_proceed s n) o).finds c hfinds
  rcases hk with rfl | rfl
  all_goals
    simp only [FindsAt, nodeType, hd]
    exact hreports

/-- No type is written after `this`. -/
theorem not_this (h : s.FindsPart d p x c k) :
    s.forest.kind? (some x) ≠ some (.node .thisExpression) := by
  intro hx
  have hfills := (h.shaped.at_kind hx rfl).1
  refine h.written (.inner (by simp [hx]) fun y hy => ?_)
  rcases hfills y hy with hplain | hstands
  · exact hplain.typeless
  · obtain ⟨r, hd⟩ := h.linked.exists_selfReference hx
    simpa [hd, NodeData.slots] using hstands

theorem access (h : s.FindsPart d p x c .propertyAccessExpression) (hn : p ≤ n) {a : Access}
    (hd : s.forest.data (some p) = .access a) : s.FindsAt (s.tasks n) d p c .propertyAccessExpression := by
  obtain ⟨rfl, hcode⟩ : x = a.expression ∧ s.forest.IsOf NodeKind.codes x := by
    simpa [hd, NodeData.slots, h.written] using h.stands
  have hrec := tasks_proceed s n
  have hnames : s.namesInside p a.expression c = c := by simp [namesInside, hd]
  intro purpose
  refine (accessUse_reports hrec p purpose).finds c ⟨a, hd, (accessMeaning_reports hrec p a purpose).finds c ?_⟩
  -- `super` is looked into where the access is; anything else before the name is one deeper.
  by_cases hsuper : s.forest.kind? (some a.expression) = some (.node .superExpression)
  · have hlevel : s.isLevel p a.expression = true := by simp [isLevel, hd, hsuper]
    have hat : Finds d (s.superType? a.expression) (s.aroundChild p a.expression c) :=
      h.finds n (h.lt hn).le _ hsuper
    rw [around_level hlevel, hnames] at hat
    simpa [Forest.accessKind, hd, hsuper] using hat
  · have hlevel : s.isLevel p a.expression = false := by simp [isLevel, hd, hsuper]
    have hfinds := h.qualifier hn (by decide) hcode hlevel
    rw [hnames] at hfinds
    have hthis := h.not_this
    have hkind : s.forest.accessKind p = .plain ∨ s.forest.accessKind p = .nullSafe := by
      unfold Forest.accessKind
      rw [hd]
      dsimp only
      split
      · exact absurd ‹_› hthis
      · exact absurd ‹_› hsuper
      · cases a.isNullSafe <;> simp
    rcases hkind with hkind | hkind <;> rw [hkind] <;> exact hfinds

theorem call (h : s.FindsPart d p x c .callExpression) (hn : p ≤ n) {e : Call}
    (hd : s.forest.data (some p) = .call e) : s.FindsAt (s.tasks n) d p c .callExpression := by
  have hstands : s.forest.IsOf [.typeArgumentList] x ∨
      ((x = e.callee ∨ x ∈ e.trailingLambda) ∧ s.forest.IsOf NodeKind.codes x) ∨
      x ∈ e.argumentList ∧ s.forest.IsOf [.valueArgumentList] x ∧
        ∀ a ∈ s.forest.children (some x), s.forest.Typeless a ∨ a ∈ e.arguments := by
    simpa [hd, NodeData.slots, h.written] using h.stands
  have hnames : s.namesInside p x c = c := by simp [namesInside, hd]
  have hrec := tasks_proceed s n
  simp only [FindsAt, nodeType, hd]
  refine (call_reports hrec e).finds c ?_
  rcases hstands with hx | ⟨hmem, hcode⟩ | ⟨-, hx, harguments⟩
  · exact absurd (.callArguments h.kind hx.kind) h.noticed
  · -- An access that is called counts together with the call; any other code is one deeper.
    by_cases hlevel : s.isLevel p x = true
    · obtain ⟨rfl, hx⟩ : e.callee = x ∧ s.forest.kind? (some x) = some (.node .propertyAccessExpression) := by
        simpa [isLevel, hd] using hlevel
      have hat := h.finds n (h.lt hn).le _ hx
      rw [around_level hlevel, hnames] at hat
      exact .inl ((calleeType_reports hrec _ _).finds c (.inl ⟨hx, hat _⟩))
    · have hlevel := Bool.eq_false_iff.mpr hlevel
      have hfinds := h.inner hn (by decide) hcode hlevel hnames
      rcases hmem with rfl | hmem
      · obtain ⟨k', -, hx⟩ := hcode
        have hother : k' ≠ .propertyAccessExpression := by
          rintro rfl
          simp [isLevel, hd, hx] at hlevel
        exact .inl ((calleeType_reports hrec _ _).finds c (.inr ⟨⟨k', hx, hother⟩, hfinds⟩))
      · exact .inr (.inr ⟨x, hmem, hfinds⟩)
  · have hat := h.noCode hn hx (by decide) e.arguments.toList (by simpa using harguments)
    exact .inr (.inl (hnames ▸ hat))

theorem valueArgumentList (h : s.FindsPart d p x c .valueArgumentList) (hn : p ≤ n)
    (hd : s.forest.data (some p) = .plain) : s.FindsAt (s.tasks n) d p c .valueArgumentList := by
  have hx : s.forest.IsOf [.valueArgument] x := by
    simpa [hd, NodeData.slots, h.written] using h.stands
  have hat := h.noCode hn hx (by decide)
  simp only [namesInside, hd] at hat
  intro ids hids
  refine (Reports.forM fun a _ => (argument_reports (tasks_proceed s n) a).self).finds c ⟨x, ?_, hat⟩
  exact (hids x h.child).resolve_left h.written

theorem valueArgument (h : s.FindsPart d p x c .valueArgument) (hn : p ≤ n) {a : ValueArgument}
    (hd : s.forest.data (some p) = .valueArgument a) : s.FindsAt (s.tasks n) d p c .valueArgument := by
  obtain ⟨hmem, hcode⟩ : x ∈ a.expression ∧ s.forest.IsOf NodeKind.codes x := by
    simpa [hd, NodeData.slots, h.written] using h.stands
  have hfinds := h.inner hn (by decide) hcode (by simp [isLevel, hd, h.kind]) (by simp [namesInside, hd])
  exact (argument_reports (tasks_proceed s n) p).finds c ⟨h.kind, a, hd, x, hmem, hfinds⟩

theorem indexing (h : s.FindsPart d p x c .indexingExpression) (hn : p ≤ n)
    (hd : s.forest.data (some p) = .plain) : s.FindsAt (s.tasks n) d p c .indexingExpression := by
  have hcode : s.forest.IsOf NodeKind.codes x := by
    simpa [hd, NodeData.slots, h.written] using h.stands
  have hfinds := h.inner hn (by decide) hcode (by simp [isLevel, hd, h.kind]) (by simp [namesInside, hd])
  obtain ⟨k', -, hx⟩ := hcode
  have hindex : s.isIndexPunctuation x = false := by simp [isIndexPunctuation, hx]
  simp only [FindsAt, nodeType]
  exact (indexing_reports (tasks_proceed s n) p).finds c ⟨x, h.child, hindex, hfinds⟩

theorem callableReference (h : s.FindsPart d p x c .callableReference) (hn : p ≤ n) {r : CallableReference}
    (hd : s.forest.data (some p) = .callableReference r) :
    s.FindsAt (s.tasks n) d p c .callableReference := by
  obtain ⟨hmem, hcode⟩ : x ∈ r.receiver ∧ s.forest.IsOf NodeKind.codes x := by
    simpa [hd, NodeData.slots, h.written] using h.stands
  have hname : ∃ name, r.name = some name ∧ s.isIdentifier (some name) = true := by
    have hidentifier : s.isIdentifier r.name = true := by
      by_contra hfalse
      exact h.noticed (.reference h.kind hd (Bool.eq_false_iff.mpr hfalse))
    cases hname : r.name with
    | none => simp [isIdentifier, hname, Forest.kind?, Forest.node?] at hidentifier
    | some name => exact ⟨name, rfl, hname ▸ hidentifier⟩
  have hfinds := h.qualifier hn (by decide) hcode (by simp [isLevel, hd, h.kind])
  simp only [namesInside, hd] at hfinds
  simp only [FindsAt, nodeType, hd]
  exact ((callableReference_reports (tasks_proceed s n) r).bind_first fun _ => .pure _).finds c
    ⟨hname, x, hmem, hfinds⟩

theorem superExpression (h : s.FindsPart d p x c .superExpression) (hn : p ≤ n) {r : SelfReference}
    (hd : s.forest.data (some p) = .selfReference r) : s.FindsAt (s.tasks n) d p c .superExpression := by
  obtain ⟨hmem, htype⟩ : x ∈ r.superType ∧ s.forest.IsOf [.typeReference] x := by
    simpa [hd, NodeData.slots, h.written] using h.stands
  have hfinds := h.type hn htype
  simp only [namesInside, hd] at hfinds
  refine (superType?_reports p).finds c ⟨?_, x, by simpa [Forest.selfReference?, hd] using hmem, hfinds⟩
  exact Classical.not_not.mp fun hclass => h.noticed (.super h.kind hclass)

theorem lambda (h : s.FindsPart d p x c .lambdaExpression) (hn : p ≤ n) {l : Lambda}
    (hd : s.forest.data (some p) = .lambda l) : s.FindsAt (s.tasks n) d p c .lambdaExpression := by
  have hstands : x ∈ l.parameters ∧ s.forest.IsOf [.parameter] x ∨
      x ∈ l.statements ∧ s.forest.IsOf NodeKind.codes x := by
    simpa [hd, NodeData.slots, h.written] using h.stands
  have hnames : s.namesInside p x c = c := by simp [namesInside, hd]
  have hrec := tasks_proceed s n
  simp only [FindsAt, nodeType, hd]
  refine ((lambda_reports hrec l).bind_first fun _ => .pure _).finds c ?_
  rcases hstands with ⟨hmem, hx⟩ | ⟨hmem, hcode⟩
  · have hat := hnames ▸ h.noCode hn hx (by decide)
    exact .inl ((parameters_reports hrec none _).finds c ⟨x, hmem, hat none⟩)
  · have hfinds := h.statement hn (by decide) hcode (by simp [isLevel, hd])
    exact .inr ⟨x, hmem, hnames ▸ hfinds⟩

end FindsPart

end KotlinTree.Attribution.Setting
