import KotlinTree.Proofs.Grammar.Keeps

/-!
Operations in the order of their precedence: what is left of an operator binds at least as tightly, and what
is right of it more tightly. A tree stays so while the forest grows.
-/

namespace KotlinTree

namespace NodeData

/-- Operands and their operator do not change while their node says the same of its parts. -/
theorem Alike.binary {b : BinaryExpression} {d : NodeData} (h : (NodeData.binary b).Alike d) :
    d = .binary b := by
  obtain ⟨-, hparts, -, -, -, -, hroles, -, -, hkinds⟩ := h
  cases d with
  | binary c =>
    obtain ⟨left, operator, token, right⟩ := b
    obtain ⟨left', operator', token', right'⟩ := c
    simp only [NodeData.parts, NodeData.roles, List.cons.injEq, Prod.mk.injEq, Kind.token.injEq,
      and_true] at hparts hroles
    obtain ⟨rfl, rfl, hright⟩ := hparts
    obtain rfl := hroles.2
    -- The right operand is the only part that may be missing.
    cases right <;> cases right' <;> simp_all
  | typeOperation t =>
    simp only [NodeData.kinds] at hkinds
    split at hkinds <;> cases hkinds
  | _ => cases hkinds

/-- What is tested does not change either. -/
theorem Alike.typeOperation {t : TypeOperation} {d : NodeData} (h : (NodeData.typeOperation t).Alike d) :
    ∃ t', d = .typeOperation t' ∧ t'.expression = t.expression := by
  obtain ⟨-, hparts, -, -, -, -, -, -, -, hkinds⟩ := h
  cases d with
  | typeOperation t' =>
    simp only [NodeData.parts, List.cons.injEq] at hparts
    exact ⟨t', rfl, hparts.1⟩
  | _ =>
    simp only [NodeData.kinds] at hkinds
    split at hkinds <;> cases hkinds

end NodeData

/-- How tightly the test of a type binds. -/
def Grammar.namedCheck : Nat := 5

theorem Grammar.precedence?_of_test {k : TokenKind} (hk : k = .isKeyword ∨ k = .notIsKeyword) :
    precedence? k = some namedCheck := by
  rcases hk with rfl | rfl <;> rfl

namespace Forest

/-- Two operands around an operator that binds so tightly. -/
structure Joins (f : Forest) (id : NodeId) (b : BinaryExpression) (p : Nat) : Prop where
  kind : f.kind? (some id) =
    some (.node (if b.operator = .questionColon then .elvisExpression else .binaryExpression))
  data : f.data (some id) = .binary b
  children : f.children (some id) = Grammar.among [some b.left, some b.operatorToken, b.right]
  precedence : Grammar.precedence? b.operator = some p

/-- An expression whose type is tested by what comes after it. -/
structure Tests (f : Forest) (id left : NodeId) (test : Array NodeId) : Prop where
  kind : f.kind? (some id) = some (.node .isExpression)
  data : ∃ t, f.data (some id) = .typeOperation t ∧ t.expression = left
  children : f.children (some id) = #[left] ++ test

/-- All operations along the left edge of a tree, down to its first operand, bind at least so tightly. -/
inductive Tight (f : Forest) (m : Nat) : NodeId → Prop
  | operand {id : NodeId} (h : f.IsOperand id) : f.Tight m id
  | join {id : NodeId} {b : BinaryExpression} {p : Nat} (h : f.Joins id b p) (bound : m ≤ p)
      (left : f.Tight m b.left) : f.Tight m id
  | test {id left : NodeId} {test : Array NodeId} (h : f.Tests id left test)
      (bound : m ≤ Grammar.namedCheck) (left : f.Tight m left) : f.Tight m id

/-- A tree that can be left of an operator: two operands that are joined at least as tightly, or no two
operands. -/
inductive LeftOf (f : Forest) (p : Nat) (id : NodeId) : Prop
  | operand (h : f.IsOperand id)
  | join {b : BinaryExpression} {q : Nat} (h : f.Joins id b q) (bound : p ≤ q)
  | test {left : NodeId} {test : Array NodeId} (h : f.Tests id left test)

/-- The operands of an operation bind as tightly as its own precedence asks for. -/
inductive OrderedAt (f : Forest) (id : NodeId) : Prop
  | join {b : BinaryExpression} {p : Nat} (h : f.Joins id b p) (left : f.LeftOf p b.left)
      (right : ∀ r ∈ b.right, f.Tight (p + 1) r)
  | test {left : NodeId} {test : Array NodeId} (h : f.Tests id left test)
      (left : f.LeftOf Grammar.namedCheck left)

/-- The operands of all operations are. -/
structure Ordered (f : Forest) : Prop where
  operation : ∀ id k, f.kind? (some id) = some k → k.isOperation = true → f.OrderedAt id

theorem ordered_empty : Ordered {} := ⟨fun _ _ h => nomatch h⟩

/-- The nodes of one forest are in another, with what they know of their parts. -/
structure Grows (f g : Forest) : Prop where
  node : ∀ (i : NodeId) (n : Node), f.nodes[i]? = some n →
    ∃ m, g.nodes[i]? = some m ∧ m.kind = n.kind ∧ m.children = n.children ∧ n.data.Alike m.data

section
variable {f g : Forest} {id left : NodeId} {test : Array NodeId} {b : BinaryExpression}
  {m p : Nat}

theorem Grows.trans {h : Forest} (hfg : f.Grows g) (hgh : g.Grows h) : f.Grows h := by
  refine ⟨fun i n hn => ?_⟩
  obtain ⟨n₁, hn₁, hkind, hchildren, hdata⟩ := hfg.node i n hn
  obtain ⟨n₂, hn₂, hkind', hchildren', hdata'⟩ := hgh.node i n₁ hn₁
  exact ⟨n₂, hn₂, hkind'.trans hkind, hchildren'.trans hchildren, hdata.trans hdata'⟩

theorem Grows.kind? (h : f.Grows g) {k : Kind} (hk : f.kind? (some id) = some k) :
    g.kind? (some id) = some k := by
  obtain ⟨n, hn, rfl⟩ := exists_of_kind? hk
  obtain ⟨n', hn', hkind, -⟩ := h.node id n hn
  rw [kind?_of_getElem? hn', hkind]

theorem Grows.children (h : f.Grows g) {k : Kind} (hk : f.kind? (some id) = some k) :
    g.children (some id) = f.children (some id) := by
  obtain ⟨n, hn, -⟩ := exists_of_kind? hk
  obtain ⟨n', hn', -, hchildren, -⟩ := h.node id n hn
  rw [children_of_getElem? hn, children_of_getElem? hn', hchildren]

theorem IsOperand.grows (hi : f.IsOperand id) (h : f.Grows g) : g.IsOperand id := by
  obtain ⟨k, hk, hop⟩ := hi
  exact ⟨k, h.kind? hk, hop⟩

theorem Joins.grows (hj : f.Joins id b p) (h : f.Grows g) : g.Joins id b p := by
  obtain ⟨n, hn, -⟩ := exists_of_kind? hj.kind
  obtain ⟨n', hn', -, -, halike⟩ := h.node id n hn
  have hdata : n.data = .binary b := (data_of_getElem? hn).symm.trans hj.data
  refine ⟨h.kind? hj.kind, ?_, ?_, hj.precedence⟩
  · rw [hdata] at halike
    rw [data_of_getElem? hn', halike.binary]
  · rw [h.children hj.kind, hj.children]

theorem Tests.grows (ht : f.Tests id left test) (h : f.Grows g) : g.Tests id left test := by
  obtain ⟨n, hn, -⟩ := exists_of_kind? ht.kind
  obtain ⟨n', hn', -, -, halike⟩ := h.node id n hn
  obtain ⟨t, hdata, rfl⟩ := ht.data
  refine ⟨h.kind? ht.kind, ?_, ?_⟩
  · rw [← data_of_getElem? hn, hdata] at halike
    rw [data_of_getElem? hn']
    exact halike.typeOperation
  · rw [h.children ht.kind, ht.children]

theorem Tight.grows (ht : f.Tight m id) (h : f.Grows g) : g.Tight m id := by
  induction ht with
  | operand hi => exact .operand (hi.grows h)
  | join hj bound _ ih => exact .join (hj.grows h) bound ih
  | test ht bound _ ih => exact .test (ht.grows h) bound ih

theorem LeftOf.grows (hl : f.LeftOf p id) (h : f.Grows g) : g.LeftOf p id := by
  cases hl with
  | operand hi => exact .operand (hi.grows h)
  | join hj bound => exact .join (hj.grows h) bound
  | test ht => exact .test (ht.grows h)

theorem OrderedAt.grows (hb : f.OrderedAt id) (h : f.Grows g) : g.OrderedAt id := by
  cases hb with
  | join hj left right =>
    exact .join (hj.grows h) (left.grows h) fun r hr => (right r hr).grows h
  | test ht left => exact .test (ht.grows h) (left.grows h)

/-- All stay ordered when the operations that are new are. -/
theorem Ordered.grows (hf : f.Ordered) (h : f.Grows g)
    (hnew : ∀ id k, g.kind? (some id) = some k → k.isOperation = true →
      f.kind? (some id) = some k ∨ g.OrderedAt id) : g.Ordered := by
  refine ⟨fun id k hk hop => ?_⟩
  rcases hnew id k hk hop with hold | hb
  · exact (hf.operation id k hold hop).grows h
  · exact hb

theorem grows_addLeaf (f : Forest) (k : TokenKind) (span : Span) (leading text value : String) :
    f.Grows (f.addLeaf k span leading text value).2 := by
  refine ⟨fun i n hn => ?_⟩
  obtain ⟨n', hn', hkept⟩ := (extends_addLeaf f k span leading text value).node i n hn
  exact ⟨n', hn', hkept.kind, hkept.children, hkept.data⟩

theorem grows_addNode (f : Forest) (k : NodeKind) (place : Nat) (children : Array NodeId)
    (data : NodeData) : f.Grows (f.addNode k place children data).2 := by
  refine ⟨fun i n hn => ?_⟩
  refine ⟨_, getElem?_addNode_of_lt hn k place children data, adopt_kind .., adopt_children .., ?_⟩
  rw [adopt_data]
  exact .refl _

theorem grows_modify (f : Forest) (id : NodeId) {change : Node → Node}
    (hc : Grammar.Cosmetic change) : f.Grows (f.modify id change) := by
  refine ⟨fun i n hn => ?_⟩
  obtain ⟨n', hn', hkept⟩ := (extends_modify hc.kept).node i n hn
  exact ⟨n', hn', hkept.kind, hkept.children, hkept.data⟩

/-- A node is the new leaf, or was there before. -/
theorem kind?_of_addLeaf {k : TokenKind} {span : Span} {leading text value : String} {k' : Kind}
    (hk : (f.addLeaf k span leading text value).2.kind? (some id) = some k') :
    f.kind? (some id) = some k' ∨ id = f.size ∧ k' = .token k := by
  obtain ⟨n, hn, rfl⟩ := exists_of_kind? hk
  rw [getElem?_addLeaf] at hn
  split at hn
  · rename_i hid
    cases hn
    exact .inr ⟨hid, rfl⟩
  · exact .inl (kind?_of_getElem? hn)

/-- A node is the new one, or was there before and has only got its parent since. -/
theorem kind?_of_addNode {k : NodeKind} {place : Nat} {children : Array NodeId} {data : NodeData}
    {k' : Kind} (hk : (f.addNode k place children data).2.kind? (some id) = some k') :
    f.kind? (some id) = some k' ∨ id = f.size ∧ k' = .node k := by
  by_cases hid : id = f.size
  · subst hid
    rw [kind?_addNode] at hk
    exact .inr ⟨rfl, (Option.some.inj hk).symm⟩
  · obtain ⟨n, hn, rfl⟩ := exists_of_kind? hk
    rw [getElem?_addNode_of_any, if_neg hid] at hn
    obtain ⟨n', hn', rfl⟩ := Option.map_eq_some_iff.mp hn
    exact .inl (by rw [kind?_of_getElem? hn', adopt_kind])

theorem kind?_of_modify {i : NodeId} {change : Node → Node} (hc : Grammar.Cosmetic change) {k : Kind}
    (hk : (f.modify i change).kind? (some id) = some k) : f.kind? (some id) = some k := by
  obtain ⟨n, hn, rfl⟩ := exists_of_kind? hk
  rw [getElem?_modify] at hn
  split at hn
  · obtain ⟨n', hn', rfl⟩ := Option.map_eq_some_iff.mp hn
    rw [kind?_of_getElem? hn', hc.kind]
  · exact kind?_of_getElem? hn

theorem Ordered.addLeaf (hf : f.Ordered) (k : TokenKind) (span : Span)
    (leading text value : String) : (f.addLeaf k span leading text value).2.Ordered := by
  refine hf.grows (grows_addLeaf ..) fun id k' hk hop => ?_
  rcases kind?_of_addLeaf hk with hold | ⟨-, rfl⟩
  · exact .inl hold
  · cases hop

/-- A node that is made is ordered, or no operation. -/
theorem Ordered.addNode (hf : f.Ordered) {k : NodeKind} {place : Nat} {children : Array NodeId}
    {data : NodeData}
    (hnew : k.isOperation = true → (f.addNode k place children data).2.OrderedAt f.size) :
    (f.addNode k place children data).2.Ordered := by
  refine hf.grows (grows_addNode ..) fun id k' hk hop => ?_
  rcases kind?_of_addNode hk with hold | ⟨rfl, rfl⟩
  · exact .inl hold
  · exact .inr (hnew hop)

theorem Ordered.modify (hf : f.Ordered) (id : NodeId) {change : Node → Node}
    (hc : Grammar.Cosmetic change) : (f.modify id change).Ordered := by
  exact hf.grows (grows_modify f id hc) fun i k hk hop => .inl (kind?_of_modify hc hk)

end

end Forest

namespace Grammar

section
variable {s s' : State} {id i : NodeId} {k : TokenKind} {kind : NodeKind} {start : Nat}
  {cs : Array NodeId} {data : NodeData} {j : Kind}

theorem runs_bumpAs_grows (h : Runs (bumpAs k) s id s') : s.forest.Grows s'.forest := by
  obtain ⟨-, rfl⟩ := runs_bumpAs.mp h
  rw [State.advance_forest]
  exact Forest.grows_addLeaf ..

theorem runs_node_grows (h : Runs (node kind start cs data) s id s') : s.forest.Grows s'.forest := by
  obtain ⟨-, rfl⟩ := runs_node.mp h
  exact Forest.grows_addNode ..

theorem kind?_of_bumpAs (h : Runs (bumpAs k) s id s') (hj : s'.forest.kind? (some i) = some j) :
    s.forest.kind? (some i) = some j ∨ i = id ∧ j = .token k := by
  obtain ⟨rfl, rfl⟩ := runs_bumpAs.mp h
  rw [State.advance_forest] at hj
  exact Forest.kind?_of_addLeaf hj

theorem kind?_of_node (h : Runs (node kind start cs data) s id s')
    (hj : s'.forest.kind? (some i) = some j) :
    s.forest.kind? (some i) = some j ∨ i = id ∧ j = .node kind := by
  obtain ⟨rfl, rfl⟩ := runs_node.mp h
  exact Forest.kind?_of_addNode hj

end

end Grammar

end KotlinTree
