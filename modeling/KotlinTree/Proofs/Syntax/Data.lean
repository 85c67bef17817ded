import KotlinTree.Syntax.Node

/-!
What a node says about its parts: which are its children, which are below one of them, what stands
before them and of which kinds they can be.
-/

namespace KotlinTree.NodeData

/-- The leaf that a node is. -/
def leaf? : NodeData → Option Leaf
  | .leaf l => some l
  | _ => none

/-- The nodes that a node knows as its parts. -/
def parts : NodeData → List NodeId
  | .plain | .leaf _ => []
  | .sourceFile d =>
    d.package.toList ++ d.imports.toList ++ d.declarations.toList ++ [d.endOfFile]
  | .package name => name.toList
  | .importDirective d => d.path.toList ++ d.localName.toList
  | .classDeclaration d =>
    d.name.toList ++ d.typeParameters.toList ++ d.primaryConstructor.toList ++
      d.supertypes.toList ++ d.body.toList
  | .classBody members => members.toList
  | .primaryConstructor parameters => parameters.toList
  | .parameter d =>
    d.bindingKeyword.toList ++ d.name.toList ++ d.typeRef.toList ++ d.defaultValue.toList
  | .supertypeEntry d => d.typeRef :: d.arguments.toList
  | .function d =>
    d.receiverType.toList ++ d.name.toList ++ d.typeParameters.toList ++ d.parameters.toList ++
      d.returnType.toList ++ d.body.toList
  | .property d =>
    d.receiverType.toList ++ d.name.toList ++ d.typeRef.toList ++ d.initializer.toList
  | .typeReference d => d.name.toList ++ d.typeArguments.toList
  | .block statements => statements.toList
  | .returnStatement expression => expression.toList
  | .assignment d => d.target :: d.value.toList
  | .ifExpression d => d.condition.toList ++ d.thenBranch.toList ++ d.elseBranch.toList
  | .access d => d.expression :: d.operator :: d.name.toList
  | .call d =>
    d.callee :: d.typeArguments.toList ++ d.argumentList.toList ++ d.arguments.toList ++
      d.trailingLambda.toList
  | .valueArgument d => d.name.toList ++ d.expression.toList
  | .selfReference d => d.keyword :: d.label.toList ++ d.superType.toList
  | .binary d => d.left :: d.operatorToken :: d.right.toList
  | .unary d => d.operand.toList
  | .typeOperation d => d.expression :: d.typeRef.toList
  | .parenthesized expression => expression.toList
  | .lambda d => d.parameters.toList ++ d.statements.toList
  | .callableReference d => d.receiver.toList ++ d.name.toList

/-- Parts that are children of the node. -/
def direct : NodeData → List NodeId
  | .sourceFile d => d.imports.toList ++ d.declarations.toList
  | .classDeclaration d => d.primaryConstructor.toList ++ d.supertypes.toList ++ d.body.toList
  | .classBody members => members.toList
  | .primaryConstructor parameters => parameters.toList
  | .parameter d => d.typeRef.toList ++ d.defaultValue.toList
  | .supertypeEntry d => d.typeRef :: d.arguments.toList
  | .function d =>
    d.receiverType.toList ++ d.parameters.toList ++ d.returnType.toList ++ d.body.toList
  | .property d => d.receiverType.toList ++ d.typeRef.toList ++ d.initializer.toList
  | .typeReference d => d.name.toList
  | .block statements => statements.toList
  | .assignment d => d.target :: d.value.toList
  | .ifExpression d => d.condition.toList ++ d.thenBranch.toList ++ d.elseBranch.toList
  | .access d => d.expression :: d.operator :: d.name.toList
  | .call d => d.callee :: d.argumentList.toList ++ d.trailingLambda.toList
  | .selfReference d => [d.keyword]
  | .binary d => d.left :: d.operatorToken :: d.right.toList
  | .typeOperation d => d.expression :: d.typeRef.toList
  | .lambda d => d.parameters.toList ++ d.statements.toList
  | .callableReference d => d.receiver.toList ++ d.name.toList
  | _ => []

/-- A part that comes before all other children: what an access or a call is on. -/
def first? : NodeData → Option NodeId
  | .access d => some d.expression
  | .call d => some d.callee
  | _ => none

/-- A part, and parts that are children of it: the arguments of a call, in their list. -/
def held : NodeData → Option NodeId × List NodeId
  | .call d => (d.argumentList, d.arguments.toList)
  | _ => (none, [])

/-- Parts that stand right after a sign. -/
def signed : NodeData → List (TokenKind × NodeId)
  | .property d => d.typeRef.toList.map (.colon, ·) ++ d.initializer.toList.map (.equals, ·)
  | _ => []

/-- Parts, each with the kinds it can be of. -/
def roles : NodeData → List (NodeId × List Kind)
  | .supertypeEntry d => d.arguments.toList.map (·, [.node .valueArgumentList])
  | .access d =>
    (d.operator, [.token (if d.isNullSafe then .questionDot else .dot)]) ::
      d.name.toList.map (·, [.token .identifier])
  | .selfReference d => [(d.keyword, [.token .thisKeyword, .token .superKeyword])]
  | .binary d => [(d.operatorToken, [.token d.operator])]
  | _ => []

/-- The parameters that a function or a constructor lists. -/
def parameters : NodeData → List NodeId
  | .primaryConstructor parameters => parameters.toList
  | .function d => d.parameters.toList
  | _ => []

/-- Whether a parameter stands for any number of arguments. -/
def vararg? : NodeData → Option Bool
  | .parameter d => some (d.modifiers.contains .varargWord)
  | _ => none

/-- What an access with a name is on, and the name. -/
def link? : NodeData → Option (NodeId × NodeId)
  | .access d => d.name.map (d.expression, ·)
  | _ => none

/-- The path that is imported. -/
def path? : NodeData → Option NodeId
  | .importDirective d => d.path
  | _ => none

/-- The kinds of inner node that know this of themselves. -/
def kinds : NodeData → List NodeKind
  | .plain =>
    [.modifierList, .annotationUse, .typeArgumentList, .typeParameterList, .anonymousInitializer,
      .valueArgumentList, .indexingExpression, .jumpExpression, .unknown]
  | .leaf _ => []
  | .sourceFile _ => [.sourceFile]
  | .package _ => [.packageDirective]
  | .importDirective _ => [.importDirective]
  | .classDeclaration _ => [.classDeclaration, .objectDeclaration]
  | .classBody _ => [.classBody]
  | .primaryConstructor _ => [.primaryConstructor]
  | .parameter _ => [.parameter]
  | .supertypeEntry _ => [.supertypeEntry]
  | .function _ => [.functionDeclaration, .secondaryConstructor, .propertyAccessor]
  | .property _ => [.propertyDeclaration]
  | .typeReference _ => [.typeReference]
  | .block _ => [.block]
  | .returnStatement _ => [.returnStatement]
  | .assignment _ => [.assignment]
  | .ifExpression _ => [.ifExpression]
  | .access _ => [.propertyAccessExpression]
  | .call _ => [.callExpression]
  | .valueArgument _ => [.valueArgument]
  | .selfReference _ => [.thisExpression, .superExpression]
  | .binary _ => [.binaryExpression, .elvisExpression]
  | .unary _ => [.prefixUnaryExpression, .postfixUnaryExpression]
  | .typeOperation d =>
    if d.operator = .isKeyword || d.operator = .notIsKeyword then [.isExpression]
    else [.asExpression]
  | .parenthesized _ => [.parenthesizedExpression]
  | .lambda _ => [.lambdaExpression]
  | .callableReference _ => [.callableReference]

/-- Tokens are leaves, and an inner node knows what its kind does. -/
def fits (d : NodeData) : Kind → Bool
  | .token _ => d.leaf?.isSome
  | .node k => d.kinds.contains k

/-- Data of an inner node of some kind that says no more of its children than which parts are among
them and what those are. -/
def isRoled (d : NodeData) (k : NodeKind) : Bool :=
  d.leaf?.isNone && d.first?.isNone && d.held.2.isEmpty && d.signed.isEmpty && d.path?.isNone &&
    d.kinds.contains k

/-- Data that does not even say what those parts are. -/
def isSimple (d : NodeData) (k : NodeKind) : Bool :=
  d.roles.isEmpty && d.parameters.isEmpty && d.vararg?.isNone && d.isRoled k

/-- Data of an inner node of some kind that says nothing of its children. -/
def isBare (d : NodeData) (k : NodeKind) : Bool := d.direct.isEmpty && d.isSimple k

theorem isRoled_iff {d : NodeData} {k : NodeKind} : d.isRoled k ↔
    d.leaf? = none ∧ d.first? = none ∧ d.held.2 = [] ∧ d.signed = [] ∧ d.path? = none ∧
      d.fits (.node k) := by
  simp [isRoled, fits, and_assoc]

theorem isSimple_iff {d : NodeData} {k : NodeKind} :
    d.isSimple k ↔ d.roles = [] ∧ d.parameters = [] ∧ d.vararg? = none ∧ d.isRoled k := by
  simp [isSimple, and_assoc]

theorem isBare_iff {d : NodeData} {k : NodeKind} : d.isBare k ↔ d.direct = [] ∧ d.isSimple k := by
  simp [isBare]

/-- Two nodes say the same about their parts, or are both leaves. -/
structure Alike (d e : NodeData) : Prop where
  isLeaf : e.leaf?.isSome = d.leaf?.isSome
  parts : e.parts = d.parts
  direct : e.direct = d.direct
  first? : e.first? = d.first?
  held : e.held = d.held
  signed : e.signed = d.signed
  roles : e.roles = d.roles
  link? : e.link? = d.link?
  path? : e.path? = d.path?
  kinds : e.kinds = d.kinds
  parameters : e.parameters = d.parameters
  vararg? : e.vararg? = d.vararg?

theorem Alike.refl (d : NodeData) : d.Alike d :=
  ⟨rfl, rfl, rfl, rfl, rfl, rfl, rfl, rfl, rfl, rfl, rfl, rfl⟩

theorem Alike.trans {d e g : NodeData} (h : d.Alike e) (h' : e.Alike g) : d.Alike g where
  isLeaf := h'.isLeaf.trans h.isLeaf
  parts := h'.parts.trans h.parts
  direct := h'.direct.trans h.direct
  first? := h'.first?.trans h.first?
  held := h'.held.trans h.held
  signed := h'.signed.trans h.signed
  roles := h'.roles.trans h.roles
  link? := h'.link?.trans h.link?
  path? := h'.path?.trans h.path?
  kinds := h'.kinds.trans h.kinds
  parameters := h'.parameters.trans h.parameters
  vararg? := h'.vararg?.trans h.vararg?

theorem Alike.fits {d e : NodeData} (h : d.Alike e) (k : Kind) : e.fits k = d.fits k := by
  cases k with
  | token k => rw [NodeData.fits, NodeData.fits, h.isLeaf]
  | node k => rw [NodeData.fits, NodeData.fits, h.kinds]

end KotlinTree.NodeData
