import KotlinTree.Proofs.Grammar.Climbing
import KotlinTree.Proofs.WellFormed

/-!
The tree of operands and operators in their order: each operator goes over as much of what is before it as binds
at least as tightly. A tree that is ordered by precedence is the one of its own sequence, so that the
sequence determines it. Every parse has these trees.
-/

namespace KotlinTree

/-- Operands joined by operators. The test of a type has an operand on its left only, and an operator lacks the
one on its right where the source does. -/
inductive OperatorTree where
  | operand (id : NodeId)
  | join (left : OperatorTree) (token : NodeId) (precedence : Nat) (right : OperatorTree)
  | lacking (left : OperatorTree) (token : NodeId) (precedence : Nat)
  | tested (left : OperatorTree) (test : Array NodeId)
  deriving DecidableEq

namespace OperatorTree

/-- What comes after an operand: an operator and the operand after it, or the test of a type. -/
inductive Link where
  | operator (token : NodeId) (precedence : Nat) (right : Option NodeId)
  | typeTest (test : Array NodeId)

def Link.precedence : Link → Nat
  | .operator _ precedence _ => precedence
  | .typeTest _ => Grammar.namedCheck

/-- All of a tree as the left operand of what comes after it. -/
def Link.over (left : OperatorTree) : Link → OperatorTree
  | .operator token precedence (some right) => .join left token precedence (.operand right)
  | .operator token precedence none => .lacking left token precedence
  | .typeTest test => .tested left test

/-- The operand at the front. -/
def first : OperatorTree → NodeId
  | .operand id => id
  | .join left _ _ _ | .lacking left _ _ | .tested left _ => left.first

/-- What comes after it, in order. -/
def links : OperatorTree → List Link
  | .operand _ => []
  | .join left token precedence right =>
    left.links ++ .operator token precedence (some right.first) :: right.links
  | .lacking left token precedence => left.links ++ [.operator token precedence none]
  | .tested left test => left.links ++ [.typeTest test]

/-- A tree with one more link after it, which takes the right operand of an operator that binds less tightly,
and else all of the tree. -/
def add : OperatorTree → Link → OperatorTree
  | .join left token precedence right, link =>
    if link.precedence ≤ precedence then link.over (.join left token precedence right)
    else .join left token precedence (right.add link)
  | tree, link => link.over tree

/-- The tree of operands and operators in order, by precedence and to the left. -/
def ofSequence (first : NodeId) (links : List Link) : OperatorTree := links.foldl add (.operand first)

/-- The tree can be left of an operator that binds so tightly. -/
def LeftOf (p : Nat) : OperatorTree → Prop
  | .operand _ | .tested _ _ => True
  | .join _ _ q _ | .lacking _ _ q => p ≤ q

/-- All operators along the left edge bind at least so tightly. -/
def Tight (m : Nat) : OperatorTree → Prop
  | .operand _ => True
  | .join left _ p _ | .lacking left _ p => m ≤ p ∧ left.Tight m
  | .tested left _ => m ≤ Grammar.namedCheck ∧ left.Tight m

def Ordered : OperatorTree → Prop
  | .operand _ => True
  | .join left _ p right => (left.LeftOf p ∧ right.Tight (p + 1)) ∧ left.Ordered ∧ right.Ordered
  | .lacking left _ p => left.LeftOf p ∧ left.Ordered
  | .tested left _ => left.LeftOf Grammar.namedCheck ∧ left.Ordered

section
variable {t left right : OperatorTree} {token : NodeId} {links : List Link}
  {m p : Nat}

/-- Operators further to the right bind more tightly than those on the left edge. -/
theorem le_precedence_of_tight (hb : t.Ordered) (ht : t.Tight m) :
    ∀ link ∈ t.links, m ≤ link.precedence := by
  -- Only the left edge is bounded: what is right of an operator is so by the order of the tree.
  induction t generalizing m with
  | operand _ => exact fun _ h => nomatch h
  | join left token p right ihl ihr =>
    obtain ⟨⟨-, hright⟩, hbl, hbr⟩ := hb
    refine List.forall_mem_append.mpr ⟨ihl hbl ht.2, List.forall_mem_cons.mpr ⟨ht.1, ?_⟩⟩
    exact fun link hlink => (Nat.le_succ_of_le ht.1).trans (ihr hbr hright link hlink)
  | lacking left token p ih =>
    exact List.forall_mem_append.mpr ⟨ih hb.2 ht.2, List.forall_mem_singleton.mpr ht.1⟩
  | tested left test ih =>
    exact List.forall_mem_append.mpr ⟨ih hb.2 ht.2, List.forall_mem_singleton.mpr ht.1⟩

theorem add_of_leftOf (link : Link) (h : t.LeftOf link.precedence) : t.add link = link.over t := by
  cases t with
  | join left token p right => exact if_pos h
  | _ => rfl

/-- What binds more tightly than an operator goes to its right operand. -/
theorem foldl_add_join (h : ∀ link ∈ links, p < link.precedence) :
    links.foldl add (.join left token p right) = .join left token p (links.foldl add right) := by
  induction links generalizing right with
  | nil => rfl
  | cons link links ih =>
    obtain ⟨hlink, hlinks⟩ := List.forall_mem_cons.mp h
    rw [List.foldl_cons, List.foldl_cons, add, if_neg hlink.not_ge, ih hlinks]

theorem ofSequence_append (first : NodeId) (before after : List Link) :
    ofSequence first (before ++ after) = after.foldl add (ofSequence first before) := List.foldl_append

/-- A tree that is ordered is the only one of its sequence. -/
theorem ofSequence_eq (hb : t.Ordered) : ofSequence t.first t.links = t := by
  induction t with
  | operand _ => rfl
  | join left token p right ihl ihr =>
    obtain ⟨⟨hleft, hright⟩, hbl, hbr⟩ := hb
    -- The left tree comes first. The operator goes over all of it, and the rest stays right of the operator.
    let link := Link.operator token p (some right.first)
    calc ofSequence left.first (left.links ++ link :: right.links)
      _ = right.links.foldl add ((ofSequence left.first left.links).add link) :=
          ofSequence_append left.first left.links (link :: right.links)
      _ = right.links.foldl add (left.add link) := by rw [ihl hbl]
      _ = right.links.foldl add (.join left token p (.operand right.first)) := by
          rw [add_of_leftOf link hleft, Link.over]
      _ = .join left token p (ofSequence right.first right.links) :=
          foldl_add_join (le_precedence_of_tight hbr hright)
      _ = .join left token p right := by rw [ihr hbr]
  | lacking left token p ih =>
    calc ofSequence left.first (left.links ++ [.operator token p none])
      _ = (ofSequence left.first left.links).add (.operator token p none) := ofSequence_append _ _ _
      _ = left.add (.operator token p none) := by rw [ih hb.2]
      _ = .lacking left token p := add_of_leftOf (.operator token p none) hb.1
  | tested left test ih =>
    calc ofSequence left.first (left.links ++ [.typeTest test])
      _ = (ofSequence left.first left.links).add (.typeTest test) := ofSequence_append _ _ _
      _ = left.add (.typeTest test) := by rw [ih hb.2]
      _ = .tested left test := add_of_leftOf (.typeTest test) hb.1

-- A sum of which the second part is a product.
example : ofSequence 0 [.operator 1 9 (some 2), .operator 3 10 (some 4)] =
    .join (.operand 0) 1 9 (.join (.operand 2) 3 10 (.operand 4)) := by decide

end

end OperatorTree

namespace Forest

/-- The tree of operands and operators at a node. -/
inductive Reads (f : Forest) : NodeId → OperatorTree → Prop
  | operand {id : NodeId} (h : f.IsOperand id) : f.Reads id (.operand id)
  | join {id r : NodeId} {b : BinaryExpression} {p : Nat} {x y : OperatorTree} (h : f.Joins id b p)
      (there : b.right = some r) (left : f.Reads b.left x) (right : f.Reads r y) :
      f.Reads id (.join x b.operatorToken p y)
  | lacking {id : NodeId} {b : BinaryExpression} {p : Nat} {x : OperatorTree} (h : f.Joins id b p)
      (missing : b.right = none) (left : f.Reads b.left x) : f.Reads id (.lacking x b.operatorToken p)
  | tested {id l : NodeId} {test : Array NodeId} {x : OperatorTree} (h : f.Tests id l test)
      (left : f.Reads l x) : f.Reads id (.tested x test)

section
variable {f : Forest} {id left left' : NodeId} {b c : BinaryExpression} {m p q : Nat}
  {test test' : Array NodeId} {t : OperatorTree}

theorem Joins.not_isOperand (h : f.Joins id b p) : ¬f.IsOperand id := by
  rintro ⟨k, hk, hop⟩
  obtain rfl := Option.some.inj (h.kind.symm.trans hk)
  revert hop
  simp only [Kind.isOperation]
  split <;> exact Bool.noConfusion

theorem Tests.not_isOperand (h : f.Tests id left test) : ¬f.IsOperand id := by
  rintro ⟨k, hk, hop⟩
  obtain rfl := Option.some.inj (h.kind.symm.trans hk)
  cases hop

theorem Joins.not_tests (h : f.Joins id b p) : ¬f.Tests id left test := by
  intro ht
  have hk := h.kind.symm.trans ht.kind
  split at hk <;> cases hk

theorem Joins.unique (h : f.Joins id b p) (h' : f.Joins id c q) : b = c ∧ p = q := by
  have hd := h.data.symm.trans h'.data
  cases hd
  exact ⟨rfl, Option.some.inj (h.precedence.symm.trans h'.precedence)⟩

theorem Tests.unique (h : f.Tests id left test) (h' : f.Tests id left' test') : left = left' := by
  obtain ⟨t, hd, rfl⟩ := h.data
  obtain ⟨t', hd', rfl⟩ := h'.data
  cases hd.symm.trans hd'
  rfl

theorem LeftOf.le_of_joins (h : f.LeftOf p id) (hj : f.Joins id b q) : p ≤ q := by
  cases h with
  | operand hi => exact absurd hi hj.not_isOperand
  | test ht => exact absurd ht hj.not_tests
  | join hj' bound =>
    obtain ⟨rfl, rfl⟩ := hj.unique hj'
    exact bound

theorem Tight.le_of_joins (h : f.Tight m id) (hj : f.Joins id b q) : m ≤ q ∧ f.Tight m b.left := by
  cases h with
  | operand hi => exact absurd hi hj.not_isOperand
  | test ht _ _ => exact absurd ht hj.not_tests
  | join hj' bound left =>
    obtain ⟨rfl, rfl⟩ := hj.unique hj'
    exact ⟨bound, left⟩

theorem Tight.le_of_tests (h : f.Tight m id) (ht : f.Tests id left test) :
    m ≤ Grammar.namedCheck ∧ f.Tight m left := by
  cases h with
  | operand hi => exact absurd hi ht.not_isOperand
  | join hj _ _ => exact absurd ht hj.not_tests
  | test ht' bound hleft =>
    obtain rfl := ht.unique ht'
    exact ⟨bound, hleft⟩

theorem Reads.leftOf (h : f.Reads id t) (hl : f.LeftOf p id) : t.LeftOf p := by
  cases h with
  | operand _ => trivial
  | tested _ _ => trivial
  | join hj _ _ _ | lacking hj _ _ => exact hl.le_of_joins hj

theorem Reads.tight (h : f.Reads id t) (ht : f.Tight m id) : t.Tight m := by
  induction h with
  | operand _ => trivial
  | join hj _ _ _ ih _ | lacking hj _ _ ih =>
    obtain ⟨hm, hleft⟩ := ht.le_of_joins hj
    exact ⟨hm, ih hleft⟩
  | tested hs _ ih =>
    obtain ⟨hm, hleft⟩ := ht.le_of_tests hs
    exact ⟨hm, ih hleft⟩

theorem Joins.ordered (hf : f.Ordered) (h : f.Joins id b p) :
    f.LeftOf p b.left ∧ ∀ r ∈ b.right, f.Tight (p + 1) r := by
  have hop : (Kind.node (if b.operator = .questionColon then .elvisExpression
      else .binaryExpression)).isOperation = true := by
    simp only [Kind.isOperation]
    split <;> rfl
  cases hf.operation id _ h.kind hop with
  | join h' left right =>
    obtain ⟨rfl, rfl⟩ := h.unique h'
    exact ⟨left, right⟩
  | test h' _ => exact absurd h' h.not_tests

theorem Tests.leftOf (hf : f.Ordered) (h : f.Tests id left test) :
    f.LeftOf Grammar.namedCheck left := by
  cases hf.operation id _ h.kind rfl with
  | join h' _ _ => exact absurd h h'.not_tests
  | test h' hleft =>
    obtain rfl := h.unique h'
    exact hleft

theorem Reads.ordered (hf : f.Ordered) (h : f.Reads id t) : t.Ordered := by
  induction h with
  | operand _ => trivial
  | join hj there left right ihl ihr =>
    obtain ⟨hleft, hright⟩ := hj.ordered hf
    exact ⟨⟨left.leftOf hleft, right.tight (hright _ there)⟩, ihl, ihr⟩
  | lacking hj _ left ih => exact ⟨left.leftOf (hj.ordered hf).1, ih⟩
  | tested ht left ih => exact ⟨left.leftOf (ht.leftOf hf), ih⟩

theorem Linked.lt_of_mem_children (hl : f.Linked) (h : left ∈ f.children (some id)) :
    left < id ∧ ∃ k, f.kind? (some left) = some k := by
  have hchild := hl.isChild_of_mem_children h
  obtain ⟨n, hn, -⟩ := exists_of_isChild hchild
  exact ⟨hl.lt_of_isChild hchild, _, kind?_of_getElem? hn⟩

/-- A tree can be read at every node, since operands come before what they are joined to. -/
theorem Ordered.exists_reads (hf : f.Ordered) (hl : f.Linked) {k : Kind} (hk : f.kind? (some id) = some k) :
    ∃ t, f.Reads id t := by
  -- Children have smaller ids than the nodes over them.
  induction id using Nat.strongRecOn generalizing k with
  | ind id ih =>
    have hchild {x : NodeId} (hx : x ∈ f.children (some id)) : ∃ t, f.Reads x t := by
      obtain ⟨hlt, k, hk⟩ := hl.lt_of_mem_children hx
      exact ih x hlt hk
    cases hop : k.isOperation with
    | false => exact ⟨_, .operand ⟨k, hk, hop⟩⟩
    | true =>
      cases hf.operation id k hk hop with
      | @test x test ht _ =>
        obtain ⟨t, hleft⟩ : ∃ t, f.Reads x t := hchild (by simp [ht.children])
        exact ⟨_, .tested ht hleft⟩
      | @join b p hj _ _ =>
        obtain ⟨t, hleft⟩ : ∃ t, f.Reads b.left t := hchild (by simp [hj.children, Grammar.among])
        cases hr : b.right with
        | none => exact ⟨_, .lacking hj hr hleft⟩
        | some r =>
          obtain ⟨u, hright⟩ : ∃ t, f.Reads r t := hchild (by simp [hj.children, Grammar.among, hr])
          exact ⟨_, .join hj hr hleft hright⟩

end

/-- Operators bind by precedence and to the left: what is joined left of one is joined at least as tightly,
what is joined or tested right of one more tightly, and a test has on its left what is joined at least as tightly
as it binds. All trees are those of their operands and operators in order. -/
structure BindsByPrecedence (f : Forest) : Prop where
  join : ∀ id k, f.kind? (some id) = some (.node k) → k = .binaryExpression ∨ k = .elvisExpression →
    ∃ b p, f.Joins id b p ∧ (∀ c q, f.Joins b.left c q → p ≤ q) ∧
      ∀ r ∈ b.right, (∀ c q, f.Joins r c q → p < q) ∧
        ∀ left test, f.Tests r left test → p < Grammar.namedCheck
  test : ∀ id, f.kind? (some id) = some (.node .isExpression) →
    ∃ left test, f.Tests id left test ∧ ∀ b p, f.Joins left b p → Grammar.namedCheck ≤ p
  tree : ∀ id k, f.kind? (some id) = some k →
    (∃ t, f.Reads id t) ∧ ∀ t, f.Reads id t → .ofSequence t.first t.links = t

/-- Every source is parsed by the precedence of its operators. -/
theorem ofSource_bindsByPrecedence (fileName source : String) :
    (ParsedUnit.ofSource fileName source).forest.BindsByPrecedence := by
  have hf := Grammar.ofSource_ordered fileName source
  have hl := (ParsedUnit.ofSource_sound fileName source).linked
  refine ⟨fun id k hk hop => ?_, fun id hk => ?_, fun id k hk => ?_⟩
  · have hordered := hf.operation id _ hk (by rcases hop with rfl | rfl <;> rfl)
    cases hordered with
    | @join b p hj left right =>
      refine ⟨b, p, hj, fun c q => left.le_of_joins, fun r hr => ⟨fun c q h => ?_, fun x test h => ?_⟩⟩
      · exact ((right r hr).le_of_joins h).1
      · exact ((right r hr).le_of_tests h).1
    | test ht _ =>
      -- The test of a type is of another kind.
      obtain rfl := Kind.node.inj (Option.some.inj (ht.kind.symm.trans hk))
      rcases hop with hop | hop <;> cases hop
  · cases hf.operation id _ hk rfl with
    | join hj _ _ =>
      have hkind := hj.kind.symm.trans hk
      split at hkind <;> cases hkind
    | test ht left => exact ⟨_, _, ht, fun b p => left.le_of_joins⟩
  · exact ⟨hf.exists_reads hl hk, fun t ht => OperatorTree.ofSequence_eq (ht.ordered hf)⟩

end Forest

end KotlinTree
