import KotlinTree.Grammar.Body

/-!
Functions, properties and constructors, and declarations of every kind.
-/

namespace KotlinTree.Grammar

/-- A receiver type that is marked by a null-safe point is nullable. -/
def markNullable (n : Node) : Node :=
  match n.data with
  | .typeReference t => { n with data := .typeReference { t with isNullable := true } }
  | _ => n

/-- The receiver type of an extension and the point after it, when the tokens ahead say that there
is one. -/
def receiverIfAny (rec : Productions) (children : Array NodeId) :
    Parser (Array NodeId × Option NodeId) := do
  -- The length is counted ahead, so that the declared name is left for the declaration.
  let length := receiverLength (← get).tokens
  if length = 0 then return (children, none)
  else
    let receiver ← rec (.typeReference (some length))
    let children := add children receiver
    if ← isAt .questionDot then
      let point ← bump
      -- The point is the mark: the type was read before it.
      receiver.forM fun id => change id markNullable
      return (children.push point, receiver)
    else return (add children (← eat .dot), receiver)

/-- One constraint on a type parameter. -/
def constraintStep (rec : Productions) (children : Array NodeId) :
    Parser (Step (Array NodeId)) := do
  let name ← bumpName
  let children := add children name
  let (children, _) ← typeAscription rec children
  -- Without a name, there is no further constraint, even after a comma.
  if name.isNone then return .done children
  else match ← eat .comma with
    | some comma => return .more (children.push comma)
    | none => return .done children

/-- The constraints on type parameters, as further children. -/
def whereClauseIfAny (rec : Productions) (children : Array NodeId) : Parser (Array NodeId) := do
  if ← isAt .whereKeyword then
    let keyword ← bump
    repeating (constraintStep rec) (children.push keyword)
  else return children

/-- The body of a function: the children, the body, and whether it is an expression. -/
def functionBody (rec : Productions) (children : Array NodeId) :
    Parser (Array NodeId × Option NodeId × Bool) := do
  if ← isAt .openBrace then
    let body ← block rec
    return (children.push body, some body, false)
  else if ← isAt .equals then
    let equals ← bump
    let body ← rec .expression
    return (add (children.push equals) body, body, true)
  else return (children, none, false)

/-- A function after its modifiers, from its keyword on. -/
def functionDeclaration (rec : Productions) (start : Nat) (children : Array NodeId)
    (found : List Modifier) : Parser NodeId := do
  let keyword ← bump
  let typeParameters ← typeParametersIfAny rec
  let (children, receiverType) ← receiverIfAny rec (children ++ among [some keyword, typeParameters])
  let name ← bumpName
  let (children, parameters) ← parametersIfAny rec (add children name)
  let (children, returnType) ← typeAscription rec children
  let children ← whereClauseIfAny rec children
  let (children, body, isExpressionBody) ← functionBody rec children
  node .functionDeclaration start children (.function
    { modifiers := found, receiverType, name, typeParameters, parameters, returnType, body,
      isExpressionBody })

/-- An accessor of a property: modifiers, its word, and a parameter list, type and body. -/
def accessor (rec : Productions) : Parser NodeId := do
  let start ← place
  let (children, found) ← modifiers rec #[]
  let name ← bump
  let children := children.push name
  -- A parenthesis on the next line is no parameter list of the accessor.
  let (children, parameters) ← if (← isAt .openParen) && !(← startsLine) then
      parameterList rec children
    else pure (children, #[])
  let (children, returnType) ← typeAscription rec children
  let (children, body, isExpressionBody) ← functionBody rec children
  node .propertyAccessor start children (.function
    { modifiers := found, receiverType := none, name := some name, typeParameters := none,
      parameters, returnType, body, isExpressionBody })

/-- One accessor, when the tokens ahead say that there is one. -/
def accessorStep (rec : Productions) (children : Array NodeId) : Parser (Step (Array NodeId)) := do
  if isAccessorAhead (← get).tokens then return .more (children.push (← accessor rec))
  else return .done children

/-- The name of a property. Several names in parentheses are kept as they are. -/
def propertyName (children : Array NodeId) : Parser (Array NodeId × Option NodeId) := do
  -- The names are found in what is kept when the property is attributed.
  if ← isAt .openParen then return (children.push (← unknown), none)
  else
    let name ← bumpName
    return (add children name, name)

/-- The value of a property, or the object that it is delegated to. -/
def propertyValue (rec : Productions) (children : Array NodeId) :
    Parser (Array NodeId × Option NodeId) := do
  if ← isAt .byKeyword then
    let by_ ← bump
    return (add (children.push by_) (← rec .expression), none)
  else assignedValue rec children

/-- A property after its modifiers, from its keyword on. -/
def propertyDeclaration (rec : Productions) (start : Nat) (children : Array NodeId)
    (found : List Modifier) : Parser NodeId := do
  let isVar ← isAt .varKeyword
  let keyword ← bump
  let typeParameters ← typeParametersIfAny rec
  let (children, receiverType) ← receiverIfAny rec (children ++ among [some keyword, typeParameters])
  let (children, name) ← propertyName children
  let (children, typeRef) ← typeAscription rec children
  let (children, initializer) ← propertyValue rec children
  let children ← repeating (accessorStep rec) children
  let children := add children (← eat .semicolon)
  node .propertyDeclaration start children (.property
    { modifiers := found, isVar, receiverType, name, typeRef, initializer })

/-- The constructor that a secondary one calls first. A brace after it opens the body. -/
def constructorCall (rec : Productions) (children : Array NodeId) : Parser (Array NodeId) := do
  if ← isAt .colon then
    let colon ← bump
    -- The expression would take the brace of the body for a lambda.
    return add (children.push colon) (← withTrailingLambda false (rec .expression))
  else return children

/-- A secondary constructor after its modifiers, from its keyword on. -/
def secondaryConstructor (rec : Productions) (start : Nat) (children : Array NodeId)
    (found : List Modifier) : Parser NodeId := do
  let name ← bump
  let (children, parameters) ← parametersIfAny rec (children.push name)
  let children ← constructorCall rec children
  let (children, body, isExpressionBody) ← functionBody rec children
  node .secondaryConstructor start children (.function
    { modifiers := found, receiverType := none, name := some name, typeParameters := none,
      parameters, returnType := none, body, isExpressionBody })

/-- A block that runs when an object is made, from its keyword on. -/
def initializer (rec : Productions) (start : Nat) (children : Array NodeId) : Parser NodeId := do
  let keyword ← bump
  let body ← block rec
  node .anonymousInitializer start (children.push keyword |>.push body)

/-- Modifiers that no declaration follows, with what is left of their line. -/
def strayModifiers (start : Nat) (children : Array NodeId) : Parser NodeId := do
  let k ← kind
  -- What is left of the line is kept too, so that the next declaration starts on its own line.
  let children ← if k ≠ .closeBrace && k ≠ .endOfFile && !(← startsLine) then
      pure (children.push (← unknown))
    else pure children
  let id ← node .unknown start children
  change id fun n => { n with isRecovered := true }
  return id

/-- A declaration of any kind. -/
def declaration (rec : Productions) : Parser (Option NodeId) := do
  let start ← place
  let (children, found) ← modifiers rec #[]
  match ← kind with
  | .classKeyword | .interfaceKeyword => some <$> classDeclaration rec start children found
  | .objectKeyword => some <$> objectDeclaration rec start children found
  | .funKeyword => some <$> functionDeclaration rec start children found
  | .valKeyword | .varKeyword => some <$> propertyDeclaration rec start children found
  | .constructorKeyword => some <$> secondaryConstructor rec start children found
  | k =>
    if k = .initKeyword && (← peek) = .openBrace then some <$> initializer rec start children
    -- No modifier, no keyword: nothing has been read, and there is no declaration.
    else if children.isEmpty then return none
    else some <$> strayModifiers start children

end KotlinTree.Grammar
