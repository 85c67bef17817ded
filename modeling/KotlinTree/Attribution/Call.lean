import KotlinTree.Attribution.Task

/-!
Accesses to members, and the receivers that `this` and `super` stand for; calls, in all their forms: with
arguments, by infix names, by operators and indices; and references to what can be called.
-/

namespace KotlinTree

/-- What a node says about the receiver that it stands for. -/
def Forest.selfReference? (f : Forest) (id : NodeId) : Option SelfReference :=
  match f.data (some id) with
  | .selfReference reference => some reference
  | _ => none

namespace Attribution.Setting

/-- The label of a receiver that is asked for by one. -/
def selfLabel (s : Setting) (id : NodeId) : Option String :=
  ((s.forest.selfReference? id).bind (·.label)).map fun label => s.forest.nameText (some label)

/-- There is no receiver to stand for. -/
def missingReceiver (s : Setting) (id : NodeId) (keyword : String) : Attributing Unit := do
  s.report (some id) <|
    match s.selfLabel id with
    -- A label that no receiver has is a name without a meaning.
    | some label => .unresolvedReference (keyword ++ "@" ++ label)
    | none => .noEnclosingClass keyword
  recordType id .unknown

/-- The type of the receiver that `this` stands for. -/
def thisType? (s : Setting) (id : NodeId) : Attributing (Option Ty) := do
  match (← get).frame? (s.selfLabel id) false with
  | some frame =>
    recordType id frame.type
    return some frame.type
  | none =>
    s.missingReceiver id "this"
    return none

/-- The superclass that `super` stands for: the one that is written, else that of the class. -/
def superType? (s : Setting) (id : NodeId) : Attributing (Option Ty) := do
  match (← get).frame? (s.selfLabel id) true with
  | some frame =>
    -- The type in angle brackets decides, if it is written.
    let t := (← s.typeUse? ((s.forest.selfReference? id).bind (·.superType))).getD frame.superclass
    recordType id t
    return some t
  | none =>
    s.missingReceiver id "super"
    return none

/-- What the name of an access means, after what the access is on has been attributed. -/
def accessMeaning (s : Setting) (rec : Tasks) (id : NodeId) (access : Access) (p : Purpose) :
    Attributing Meaning := do
  let name := s.forest.nameText access.name
  let on (meaning : Meaning) : Meaning := if name = "" then .indeterminate else meaning
  -- On the keywords, no package or class is asked for.
  match s.forest.accessKind id with
  | .onThis => match ← s.thisType? access.expression with
    | some t => return on (s.valueMemberMeaning t name p)
    | none => return .indeterminate
  | .onSuper => match ← s.superType? access.expression with
    | some t => return s.superMemberMeaning t name p
    | none => return .indeterminate
  | .plain | .nullSafe => return on (s.memberMeaning (← rec.qualifierOf access.expression) name p)

/-- Attributes an access. -/
def accessUse (s : Setting) (rec : Tasks) (id : NodeId) (p : Purpose) : Attributing Qualifier := do
  match s.forest.data (some id) with
  | .access access =>
    let meaning ← s.accessMeaning rec id access p
    s.record .access id access.name (s.forest.accessKind id) meaning
  | _ => return .value .unknown

/-- Attributes a name that stands alone as a value. -/
def nameUse (s : Setting) (id : NodeId) : Attributing Qualifier := do
  s.recordName id (s.nameMeaning (← get) (s.forest.nameText (some id)) .value)

end Attribution.Setting

end KotlinTree

namespace KotlinTree.Attribution

/-- The method that an operator stands for. -/
def operatorMethod? : TokenKind → Option String
  | .plus => some "plus"
  | .minus => some "minus"
  | .asterisk => some "times"
  | .slash => some "div"
  | .percent => some "rem"
  | .dotDot => some "rangeTo"
  | .dotDotLess => some "rangeUntil"
  | _ => none

namespace Setting

def isIdentifier (s : Setting) (id : Option NodeId) : Bool :=
  s.forest.kind? id = some (.token .identifier)

/-- An argument has the type of its value. -/
def argument (s : Setting) (rec : Tasks) (id : NodeId) : Attributing Unit := do
  match s.forest.kind? (some id), s.forest.data (some id) with
  -- The argument has a node of its own, with the type of its value.
  | some (.node .valueArgument), .valueArgument argument =>
    recordType id (← rec.typeOf argument.expression)
  | some (.node .valueArgument), _ => return
  | _, _ => do let _ ← rec.typeOf (some id)

/-- What a callee yields when it is called with so many arguments. Only names can be called. -/
def calleeType (s : Setting) (rec : Tasks) (callee : NodeId) (count : Nat) : Attributing Ty := do
  match s.forest.kind? (some callee) with
  | some (.token .identifier) =>
    let meaning := s.nameMeaning (← get) (s.forest.nameText (some callee)) (.call count)
    return (← s.recordName callee meaning).valueType s.env
  | some (.node .propertyAccessExpression) =>
    return (← s.accessUse rec callee (.call count)).valueType s.env
  -- Any other callee is attributed as a value, and what it yields is not known.
  | _ =>
    let _ ← rec.typeOf (some callee)
    return .unknown

/-- A call: the callee by the number of arguments, then these. -/
def call (s : Setting) (rec : Tasks) (call : Call) : Attributing Ty := do
  -- A lambda after the parentheses counts.
  let count := call.arguments.size + call.trailingLambda.toList.length
  let t ← s.calleeType rec call.callee count
  call.arguments.toList.forM (s.argument rec)
  let _ ← rec.typeOf call.trailingLambda
  return t

/-- The type of a call of a method on a value, where its name is not written. -/
def impliedCallType (s : Setting) (receiver : Ty) (method : String) (count : Nat) :
    Attributing Ty := do
  match s.instanceMember? receiver method (.call count) with
  | some m => return (memberUse s.env (← get) m).1
  | none => return .unknown

/-- A name between two operands: a call on the first with the second. -/
def infixCall (s : Setting) (rec : Tasks) (binary : BinaryExpression) : Attributing Ty := do
  let receiver ← rec.typeOf (some binary.left)
  let name := s.forest.nameText (some binary.operatorToken)
  let q ← s.recordName binary.operatorToken (s.valueMemberMeaning receiver name (.call 1))
  let _ ← rec.typeOf binary.right
  return q.valueType s.env

/-- An operator between two operands: the method it stands for. -/
def operatorCall (s : Setting) (rec : Tasks) (binary : BinaryExpression) : Attributing Ty := do
  let receiver ← rec.typeOf (some binary.left)
  -- The operand is attributed before the method is looked for, whether there is one or not.
  let _ ← rec.typeOf binary.right
  match operatorMethod? binary.operator with
  | some method => s.impliedCallType receiver method 1
  | none => return .unknown

/-- Punctuation of an index list. -/
def isIndexPunctuation (s : Setting) (id : NodeId) : Bool :=
  match s.forest.kind? (some id) with
  | some (.token .openBracket) | some (.token .closeBracket) | some (.token .comma) => true
  | _ => false

/-- Indices after a value: a call of `get` with them. -/
def indexing (s : Setting) (rec : Tasks) (id : NodeId) : Attributing Ty := do
  match (s.forest.children (some id)).toList with
  | [] => return .unknown
  | receiver :: rest =>
    let t ← rec.typeOf (some receiver)
    let indices := rest.filter fun index => !s.isIndexPunctuation index
    -- The value and its punctuation are children as well as the indices.
    rec.types indices
    s.impliedCallType t "get" indices.length

/-- A reference to a member. A name that the receiver does not have is passed over. -/
def callableReference (s : Setting) (rec : Tasks) (reference : CallableReference) :
    Attributing Unit := do
  match reference.receiver, reference.name with
  | some receiver, some name =>
    if s.isIdentifier (some name) then
      -- Whatever the name means but a member, nothing is recorded, and nothing is reported.
      match s.memberMeaning (← rec.qualifierOf receiver) (s.forest.nameText (some name)) .any with
      | .member m => do let _ ← s.recordName name (.member m)
      | _ => return
  | _, _ => return

end Setting

end KotlinTree.Attribution
