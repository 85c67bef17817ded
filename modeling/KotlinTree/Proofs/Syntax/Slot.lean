import KotlinTree.Proofs.Syntax.Links

/-!
What the children of a node can be. A node has slots for its parts, by what it knows of them and by its
kind; each of its children stands in one of these slots, or has no written type in it.
-/

namespace KotlinTree

namespace NodeKind

/-- Kinds of declarations. -/
def declarations : List NodeKind :=
  [.classDeclaration, .objectDeclaration, .functionDeclaration, .propertyDeclaration,
    .secondaryConstructor, .anonymousInitializer]

/-- Kinds of what has a value or stands as a statement. -/
def codes : List NodeKind :=
  declarations ++ [.block, .returnStatement, .assignment, .ifExpression, .propertyAccessExpression,
    .callExpression, .thisExpression, .superExpression, .parenthesizedExpression, .binaryExpression,
    .elvisExpression, .prefixUnaryExpression, .postfixUnaryExpression, .asExpression, .isExpression,
    .lambdaExpression, .callableReference, .indexingExpression, .jumpExpression]

/-- Kinds of what can be the body of a function. -/
def bodies (isExpression : Bool) : List NodeKind := if isExpression then codes else [.block]

/-- Nodes into which nobody looks for types: annotations, and source that is kept as it is. -/
def isSkipped : NodeKind → Bool
  | .annotationUse | .unknown => true
  | _ => false

end NodeKind

/-- A place for a child. -/
inductive Slot where
  /-- For what has no written type in it. -/
  | typeless
  /-- For nodes of some kinds. -/
  | of (kinds : List NodeKind)
  /-- For a list of arguments, which are these. -/
  | arguments (ids : List NodeId)
  /-- For what stands after the word for a delegate. -/
  | delegate
  /-- For any code that is not the body, which is of some kinds. -/
  | beside (body : Option NodeId) (kinds : List NodeKind)
  deriving DecidableEq

namespace Slot

abbrev type : Slot := .of [.typeReference]

abbrev declaration : Slot := .of NodeKind.declarations

abbrev code : Slot := .of NodeKind.codes

abbrev only (kind : NodeKind) : Slot := .of [kind]

/-- A slot that each of some nodes stands in. -/
def each (slot : Slot) (ids : List NodeId) : List (Option NodeId × Slot) :=
  ids.map fun id => (some id, slot)

/-- A slot that any child can stand in. -/
def any (slot : Slot) : Option NodeId × Slot := (none, slot)

end Slot

/-- The slots of a node with what it knows of itself, by its kind: for one child, or for any. -/
def NodeData.slots (data : NodeData) (kind : NodeKind) : List (Option NodeId × Slot) :=
  Slot.any .typeless ::
  match data with
  | .leaf _ | .package _ | .importDirective _ => []
  | .sourceFile d => Slot.declaration.each d.declarations.toList
  | .classDeclaration d =>
    Slot.any (.only .typeParameterList) :: (Slot.only .primaryConstructor).each d.primaryConstructor.toList ++
      (Slot.only .supertypeEntry).each d.supertypes.toList ++ (Slot.only .classBody).each d.body.toList
  | .classBody members => Slot.declaration.each members.toList
  | .primaryConstructor parameters => (Slot.only .parameter).each parameters.toList
  | .parameter d => Slot.type.each d.typeRef.toList ++ Slot.code.each d.defaultValue.toList
  | .supertypeEntry d =>
    Slot.any .delegate :: Slot.type.each [d.typeRef] ++
      (Slot.only .valueArgumentList).each d.arguments.toList
  | .function d =>
    Slot.any (.only .typeParameterList) :: (Slot.only .parameter).each d.parameters.toList ++
      Slot.type.each d.returnType.toList ++
      (Slot.of (NodeKind.bodies d.isExpressionBody)).each d.body.toList ++
      match kind with
      -- What the function is applied to, and the types of constraints.
      | .functionDeclaration => Slot.any .type :: Slot.type.each d.receiverType.toList
      -- The call of another constructor.
      | .secondaryConstructor => [Slot.any (.beside d.body (NodeKind.bodies d.isExpressionBody))]
      | _ => []
  | .property d =>
    [Slot.any (.only .typeParameterList), Slot.any (.only .propertyAccessor), Slot.any .delegate] ++
      Slot.type.each d.receiverType.toList ++ Slot.type.each d.typeRef.toList ++
      Slot.code.each d.initializer.toList
  | .typeReference _ => [Slot.any .type, Slot.any (.only .typeArgumentList)]
  | .block statements => Slot.code.each statements.toList
  | .returnStatement value => Slot.code.each value.toList
  | .assignment d => Slot.code.each (d.target :: d.value.toList)
  | .ifExpression d =>
    Slot.code.each (d.condition.toList ++ d.thenBranch.toList ++ d.elseBranch.toList)
  | .access d => Slot.code.each [d.expression]
  | .call d =>
    Slot.any (.only .typeArgumentList) :: Slot.code.each (d.callee :: d.trailingLambda.toList) ++
      (Slot.arguments d.arguments.toList).each d.argumentList.toList
  | .valueArgument d => Slot.code.each d.expression.toList
  | .selfReference d =>
    match kind with
    | .superExpression => Slot.type.each d.superType.toList
    | _ => []
  | .binary d => Slot.code.each (d.left :: d.right.toList)
  | .unary d => Slot.code.each d.operand.toList
  | .typeOperation d => Slot.code.each [d.expression] ++ Slot.type.each d.typeRef.toList
  | .parenthesized inner => Slot.code.each inner.toList
  | .lambda d => (Slot.only .parameter).each d.parameters.toList ++ Slot.code.each d.statements.toList
  | .callableReference d => Slot.code.each d.receiver.toList
  | .plain =>
    match kind with
    | .typeArgumentList => [Slot.any .type]
    | .typeParameterList => [Slot.any (.only .parameter)]
    | .valueArgumentList => [Slot.any (.only .valueArgument)]
    | .anonymousInitializer => [Slot.any (.only .block)]
    | .indexingExpression | .jumpExpression => [Slot.any .code]
    | _ => []

namespace Forest

/-- No type is written in a tree, except in annotations and in source that is kept as it is. -/
inductive Typeless (f : Forest) : NodeId → Prop
  | skipped {id : NodeId} {k : NodeKind} (h : f.kind? (some id) = some (.node k)) (hk : k.isSkipped) :
    Typeless f id
  | inner {id : NodeId} (h : f.kind? (some id) ≠ some (.node .typeReference))
    (hc : ∀ c ∈ f.children (some id), Typeless f c) : Typeless f id

/-- A tree without types that is not the word for a delegate. -/
structure Plain (f : Forest) (id : NodeId) : Prop where
  typeless : f.Typeless id
  noWord : f.kind? (some id) ≠ some (.token .byKeyword)

/-- A node is of one of some kinds. -/
def IsOf (f : Forest) (kinds : List NodeKind) (id : NodeId) : Prop :=
  ∃ k ∈ kinds, f.kind? (some id) = some (.node k)

/-- A node stands right after the first word for a delegate among some children. -/
def IsDelegate (f : Forest) (children : Array NodeId) (id : NodeId) : Prop :=
  ∃ before word after, children.toList = before ++ word :: id :: after ∧
    f.kind? (some word) = some (.token .byKeyword) ∧
    ∀ b ∈ before, f.kind? (some b) ≠ some (.token .byKeyword)

/-- One of some children is right for a slot. -/
def Suits (f : Forest) (children : Array NodeId) (id : NodeId) : Slot → Prop
  | .typeless => f.Typeless id
  | .of kinds => f.IsOf kinds id
  | .arguments ids => f.IsOf [.valueArgumentList] id ∧
      ∀ c ∈ f.children (some id), f.Typeless c ∨ c ∈ ids
  | .delegate => f.IsOf NodeKind.codes id ∧ f.IsDelegate children id
  | .beside body kinds => f.IsOf NodeKind.codes id ∧ (body = some id → f.IsOf kinds id)

/-- One of some children is right for one of some slots. -/
def Holds (f : Forest) (children : Array NodeId) (slots : List (Option NodeId × Slot)) (c : NodeId) :
    Prop :=
  ∃ entry ∈ slots, (∀ id ∈ entry.1, id = c) ∧ f.Suits children c entry.2

/-- Each of some children is plain or stands in one of some slots. -/
def Fills (f : Forest) (children : Array NodeId) (slots : List (Option NodeId × Slot)) : Prop :=
  ∀ c ∈ children, f.Plain c ∨ f.Holds children slots c

/-- What is thrown comes last, after a word that says so. -/
def Throws (f : Forest) (children : Array NodeId) : Prop :=
  ∀ c ∈ children, f.Typeless c ∨
    f.kind? children[0]? = some (.token .throwKeyword) ∧ children.back? = some c

/-- All children of a node are in their slots, if anything looks into it for types. -/
def ShapedAt (f : Forest) (id : NodeId) : Prop :=
  ∀ k, f.kind? (some id) = some (.node k) → k.isSkipped = false →
    f.Fills (f.children (some id)) ((f.data (some id)).slots k) ∧
      (k = .jumpExpression → f.Throws (f.children (some id)))

/-- A forest in which all nodes are shaped. -/
def Shaped (f : Forest) : Prop := ∀ i < f.size, f.ShapedAt i

section
variable {f : Forest} {children : Array NodeId} {slots slots' : List (Option NodeId × Slot)} {slot : Slot}
  {c : NodeId}

theorem IsOf.kind {k : NodeKind} (h : f.IsOf [k] c) : f.kind? (some c) = some (.node k) := by
  obtain ⟨k', hk', h⟩ := h
  rwa [List.mem_singleton.mp hk'] at h

/-- The children of a node that anything looks into are in its slots. -/
theorem Shaped.at_kind {k : NodeKind} (h : f.Shaped) (hk : f.kind? (some c) = some (.node k))
    (hskipped : k.isSkipped = false) :
    f.Fills (f.children (some c)) ((f.data (some c)).slots k) ∧
      (k = .jumpExpression → f.Throws (f.children (some c))) := by
  obtain ⟨node, hnode, -⟩ := exists_of_kind? hk
  exact h c (lt_size_of_getElem? hnode) k hk hskipped

@[simp] theorem suits_typeless : f.Suits children c .typeless ↔ f.Typeless c := Iff.rfl

@[simp] theorem suits_of {kinds : List NodeKind} : f.Suits children c (.of kinds) ↔ f.IsOf kinds c := Iff.rfl

@[simp] theorem suits_arguments {ids : List NodeId} : f.Suits children c (.arguments ids) ↔
    f.IsOf [.valueArgumentList] c ∧ ∀ d ∈ f.children (some c), f.Typeless d ∨ d ∈ ids := Iff.rfl

@[simp] theorem suits_delegate : f.Suits children c .delegate ↔
    f.IsOf NodeKind.codes c ∧ f.IsDelegate children c := Iff.rfl

@[simp] theorem suits_beside {body : Option NodeId} {kinds : List NodeKind} :
    f.Suits children c (.beside body kinds) ↔
      f.IsOf NodeKind.codes c ∧ (body = some c → f.IsOf kinds c) := Iff.rfl

@[simp] theorem not_holds_nil : ¬f.Holds children [] c := fun ⟨_, h, _⟩ => absurd h List.not_mem_nil

@[simp] theorem holds_any_cons :
    f.Holds children (Slot.any slot :: slots) c ↔ f.Suits children c slot ∨ f.Holds children slots c := by
  simp [Holds, Slot.any]

@[simp] theorem holds_append : f.Holds children (slots ++ slots') c ↔
    f.Holds children slots c ∨ f.Holds children slots' c := by
  simp [Holds, or_and_right, exists_or]

@[simp] theorem holds_each {ids : List NodeId} :
    f.Holds children (slot.each ids) c ↔ c ∈ ids ∧ f.Suits children c slot := by
  simp [Holds, Slot.each]

end

end Forest

end KotlinTree
