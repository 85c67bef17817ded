import KotlinTree.Attribution.Declaration

/-!
Types of expressions and values of statements. An expression that cannot be resolved has the unknown
type; nothing fails.
-/

namespace KotlinTree.Attribution

/-- Operators whose value is a truth value. -/
def isTest : TokenKind → Bool
  | .equalsEquals | .equalsEqualsEquals | .bangEquals | .bangEqualsEquals | .less | .greater
  | .lessEquals | .greaterEquals | .andAnd | .orOr | .inKeyword | .notInKeyword => true
  | _ => false

namespace Setting

/-- An assignment has no value. -/
def assignment (rec : Tasks) (assignment : Assignment) : Attributing Unit := do
  let _ ← rec.typeOf (some assignment.target)
  let _ ← rec.typeOf assignment.value

/-- An object declaration without a name is an expression. -/
def isNamedClass (s : Setting) (id : NodeId) : Bool :=
  match s.forest.data (some id) with
  | .classDeclaration declaration => declaration.name.isSome
  | _ => false

/-- The node is a declaration where it stands as a statement. -/
def isDeclaration (s : Setting) (id : NodeId) : Bool :=
  match s.forest.kind? (some id) with
  | some (.node .classDeclaration) | some (.node .functionDeclaration)
  | some (.node .propertyDeclaration) => true
  | some (.node .objectDeclaration) => s.isNamedClass id
  | _ => false

def binary (s : Setting) (rec : Tasks) (binary : BinaryExpression) : Attributing Ty := do
  -- An operator that is a name is a call.
  if binary.operator = .identifier then s.infixCall rec binary
  else if isTest binary.operator then
    let _ ← rec.typeOf (some binary.left)
    let _ ← rec.typeOf binary.right
    return .of Ty.booleanName
  else s.operatorCall rec binary

/-- A value with another one for when it is missing. -/
def elvis (s : Setting) (rec : Tasks) (binary : BinaryExpression) : Attributing Ty := do
  -- Both sides are always attributed; only their types are joined.
  let left ← rec.typeOf (some binary.left)
  let right ← rec.typeOf binary.right
  return s.env.leastUpperBound left.notNull right

def unary (rec : Tasks) (unary : UnaryExpression) : Attributing Ty := do
  let operand ← rec.typeOf unary.operand
  match unary.operator with
  | .bang => return .of Ty.booleanName
  | .bangBang => return operand.notNull
  | _ => return operand

/-- A cast has the type that is written, a test of a type a truth value. -/
def typeOperation (s : Setting) (rec : Tasks) (operation : TypeOperation) : Attributing Ty := do
  let _ ← rec.typeOf (some operation.expression)
  let target ← s.typeUse operation.typeRef
  match operation.operator with
  | .isKeyword | .notIsKeyword => return .of Ty.booleanName
  | .asSafeKeyword => return target.nullable
  | _ => return target

/-- A choice has a value when both branches are there. -/
def choice (s : Setting) (rec : Tasks) (choice : IfExpression) : Attributing Ty := do
  let _ ← rec.typeOf choice.condition
  -- Either branch has a scope of its own, also where it is no block.
  let left ← inScope (rec.statement choice.thenBranch)
  match choice.elseBranch with
  | none => return .of Ty.unitName
  | some branch =>
    let right ← inScope (rec.statement (some branch))
    return s.env.leastUpperBound left right

/-- A jump has no value; what is thrown has one. -/
def jump (s : Setting) (rec : Tasks) (id : NodeId) : Attributing Unit := do
  let children := s.forest.children (some id)
  if s.forest.kind? children[0]? = some (.token .throwKeyword) then
    -- The value that is thrown is the last child.
    let _ ← rec.typeOf children.back?

/-- The parameters of a lambda, or the one that need not be named, are visible in it. -/
def lambda (s : Setting) (rec : Tasks) (lambda : Lambda) : Attributing Unit :=
  inScope do
    -- The name that need not be written is a local of unknown type.
    if lambda.parameters.isEmpty then declareLocal "it" .unknown
    s.parameters rec none lambda.parameters
    let step (_ : Ty) (id : NodeId) : Attributing Ty := rec.statement (some id)
    let _ ← s.through step .unknown lambda.statements.toList

/-- The type of a token: a literal, or a name. -/
def tokenType (s : Setting) (kind : TokenKind) (id : NodeId) : Attributing Ty := do
  match s.forest.literalType? (some id) with
  | some t => return t
  | none =>
    if kind = .identifier then return (← s.nameUse id).valueType s.env
    else return .unknown

/-- The type of an inner node. -/
def nodeType (s : Setting) (rec : Tasks) (kind : NodeKind) (id : NodeId) : Attributing Ty := do
  match kind, s.forest.data (some id) with
  | .propertyAccessExpression, _ => return (← s.accessUse rec id .value).valueType s.env
  | .callExpression, .call call => s.call rec call
  | .thisExpression, _ => return (← s.thisType? id).getD .unknown
  | .superExpression, _ => return (← s.superType? id).getD .unknown
  | .parenthesizedExpression, .parenthesized inner => rec.typeOf inner
  | .binaryExpression, .binary binary => s.binary rec binary
  | .elvisExpression, .binary binary => s.elvis rec binary
  | .prefixUnaryExpression, .unary expression => unary rec expression
  | .postfixUnaryExpression, .unary expression => unary rec expression
  | .asExpression, .typeOperation operation => s.typeOperation rec operation
  | .isExpression, .typeOperation operation => s.typeOperation rec operation
  | .lambdaExpression, .lambda lambda => do s.lambda rec lambda; return .unknown
  | .ifExpression, .ifExpression choice => s.choice rec choice
  | .returnStatement, .returnStatement value => do
    let _ ← rec.typeOf value
    return .nothing false
  | .returnStatement, _ => return .nothing false
  | .jumpExpression, _ => do s.jump rec id; return .nothing false
  | .block, _ => s.block rec id
  | .assignment, .assignment a => do assignment rec a; return .of Ty.unitName
  | .assignment, _ => return .of Ty.unitName
  | .indexingExpression, _ => s.indexing rec id
  | .callableReference, .callableReference reference => do
    s.callableReference rec reference
    return .unknown
  | .classDeclaration, _ | .objectDeclaration, _ => s.classUse rec id
  | .functionDeclaration, _ => do s.function rec .block id; return .unknown
  | .propertyDeclaration, _ => do s.property rec .block id; return .of Ty.unitName
  | .unknown, _ => do s.keptSource rec id; return .unknown
  | _, _ => return .unknown

/-- The type of a node as an expression, which is recorded unless it is nested too deep. -/
def expression (s : Setting) (rec : Tasks) (id : NodeId) : Attributing Ty := do
  let compute : Attributing Ty :=
    match s.forest.kind? (some id) with
    | some (.token kind) => s.tokenType kind id
    | some (.node kind) => s.nodeType rec kind id
    | none => return .unknown
  -- Too deep, nothing is attributed, and no type is recorded.
  match ← deeper none (some <$> compute) with
  | some t =>
    recordType id t
    return t
  | none => return .unknown

/-- What another name stands after: a chain or a name can be a package or a class. -/
def qualifier (s : Setting) (rec : Tasks) (id : NodeId) : Attributing Qualifier := do
  match s.forest.kind? (some id) with
  -- A qualifier that is no chain and no name is a value.
  | some (.node .propertyAccessExpression) =>
    deeper (.value .unknown) (s.accessUse rec id .value)
  | some (.token .identifier) => deeper (.value .unknown) (s.nameUse id)
  | _ => return .value (← s.expression rec id)

/-- The value of a statement; a declaration or an assignment has none. -/
def statement (s : Setting) (rec : Tasks) (id : NodeId) : Attributing Ty := do
  if s.isDeclaration id then
    s.declaration rec .block id
    return .of Ty.unitName
  else match s.forest.kind? (some id), s.forest.data (some id) with
    | some (.node .assignment), .assignment a =>
      assignment rec a
      return .of Ty.unitName
    | _, _ => s.expression rec id

/-- One part of a file, given how to attribute the parts inside it. -/
def task (s : Setting) (rec : Tasks) : Tasks
  | .expression id => s.expression rec id
  | .qualifier id => s.qualifier rec id
  | .statement id => s.statement rec id
  | .declaration owner id => s.declaration rec owner id

/-- The parts of a file, nested at most `n` deep. -/
def tasks (s : Setting) : Nat → Tasks
  | 0 => fun task => return task.nothing
  | n + 1 => s.task (s.tasks n)

end Setting

end KotlinTree.Attribution
