import KotlinTree.Grammar.Parameter

/-!
What stands in braces: statements, lambdas, and the members of classes, interfaces and objects.
-/

namespace KotlinTree.Grammar

/-- One statement or semicolon before the closing brace: the children, and the statements. -/
def statementStep (rec : Productions) :
    Array NodeId × Array NodeId → Parser (Step (Array NodeId × Array NodeId))
  | (children, statements) => do
    match ← kind with
    -- The brace is left to the block.
    | .closeBrace | .endOfFile => return .done (children, statements)
    | .semicolon => return .more (children.push (← bump), statements)
    | _ =>
      let statement ← match ← rec .statement with
        | some statement => pure statement
        | none => unknown
      return .more (children.push statement, statements.push statement)

/-- Statements up to the closing brace, as further children. -/
def statementList (rec : Productions) (children : Array NodeId) :
    Parser (Array NodeId × Array NodeId) :=
  repeating (statementStep rec) (children, #[])

/-- Statements in braces. -/
def block (rec : Productions) : Parser NodeId := do
  let start ← place
  let opened := #[← bump]
  let (children, statements) ← withTrailingLambda true do
    let (children, statements) ← statementList rec opened
    return (add children (← eat .closeBrace), statements)
  node .block start children (.block statements)

/-- The body of a branch: a block or one statement. -/
def controlBody (rec : Productions) : Parser (Option NodeId) := do
  if ← isAt .openBrace then return some (← block rec) else rec .statement

/-- One entry before the arrow of a lambda: the children, and the parameters. -/
def lambdaParameterStep (rec : Productions) :
    Array NodeId × Array NodeId → Parser (Step (Array NodeId × Array NodeId))
  | (children, parameters) => do
    match ← kind with
    | .arrow | .endOfFile => return .done (children, parameters)
    | .comma => return .more (children.push (← bump), parameters)
    | _ =>
      match ← parameter rec with
      | some parameter => return .more (children.push parameter, parameters.push parameter)
      -- What is no parameter is kept up to the end of its line.
      | none => return .more (children.push (← unknown), parameters)

/-- The parameters of a lambda and their arrow, when the tokens ahead say that there are any. -/
def lambdaParameters (rec : Productions) (children : Array NodeId) :
    Parser (Array NodeId × Array NodeId) := do
  -- The look-ahead is not the grammar of parameters: it stops at tokens that parameters can have.
  if lambdaParametersAhead 0 (← get).ahead then
    let (children, parameters) ← repeating (lambdaParameterStep rec) (children, #[])
    return (add children (← eat .arrow), parameters)
  else return (children, #[])

/-- A lambda from its opening brace on. -/
def lambda (rec : Productions) : Parser NodeId := do
  let start ← place
  let opened := #[← bump]
  let (children, parameters, statements) ← withTrailingLambda true do
    let (children, parameters) ← lambdaParameters rec opened
    let (children, statements) ← statementList rec children
    return (add children (← eat .closeBrace), parameters, statements)
  node .lambdaExpression start children (.lambda { parameters, statements })

/-- One member or semicolon before the closing brace: the children, and the members. -/
def memberStep (rec : Productions) :
    Array NodeId × Array NodeId → Parser (Step (Array NodeId × Array NodeId))
  | (children, members) => do
    match ← kind with
    | .closeBrace | .endOfFile => return .done (children, members)
    | .semicolon => return .more (children.push (← bump), members)
    | _ =>
      let member ← match ← rec .declaration with
        | some member => pure member
        | none => unknown
      return .more (children.push member, members.push member)

/-- The members of a class in braces. -/
def classBody (rec : Productions) : Parser NodeId := do
  let start ← place
  let opened := #[← bump]
  -- The reading of braces is that of the surroundings: it is not set back here.
  let (children, members) ← repeating (memberStep rec) (opened, #[])
  node .classBody start (add children (← eat .closeBrace)) (.classBody members)

def classBodyIfAny (rec : Productions) : Parser (Option NodeId) := do
  if ← isAt .openBrace then return some (← classBody rec) else return none

/-- The arguments that a superclass is constructed with, on the line of its name. -/
def supertypeArguments (rec : Productions) (children : Array NodeId) :
    Parser (Array NodeId × Option NodeId) := do
  if (← isAt .openParen) && !(← startsLine) then
    let (list, _) ← valueArgumentList rec
    -- The list is a child and part of the data; its arguments are only children of it.
    return (children.push list, some list)
  else return (children, none)

/-- The object that implements a supertype. A brace after it opens the body of the class. -/
def delegate (rec : Productions) (children : Array NodeId) : Parser (Array NodeId) := do
  if ← isAt .byKeyword then
    let by_ ← bump
    -- The brace after the expression opens the body of the class.
    return add (children.push by_) (← withTrailingLambda false (rec .expression))
  else return children

/-- One supertype, constructed or delegated. -/
def supertypeEntry (rec : Productions) : Parser (Option NodeId) := do
  let start ← place
  match ← rec (.typeReference none) with
  | none => return none
  | some typeRef =>
    let (children, arguments) ← supertypeArguments rec #[typeRef]
    let children ← delegate rec children
    return some (← node .supertypeEntry start children (.supertypeEntry { typeRef, arguments }))

/-- One supertype and the comma after it. -/
def supertypeStep (rec : Productions) :
    Array NodeId × Array NodeId → Parser (Step (Array NodeId × Array NodeId))
  | (children, supertypes) => do
    match ← supertypeEntry rec with
    | none => return .done (children, supertypes)
    | some entry =>
      match ← eat .comma with
      | some comma => return .more (children.push entry |>.push comma, supertypes.push entry)
      -- Without a comma, the entry is the last one.
      | none => return .done (children.push entry, supertypes.push entry)

/-- The supertypes after a colon, as further children. -/
def supertypeList (rec : Productions) (children : Array NodeId) :
    Parser (Array NodeId × Array NodeId) := do
  if ← isAt .colon then
    let colon ← bump
    repeating (supertypeStep rec) (children.push colon, #[])
  else return (children, #[])

/-- A primary constructor: modifiers, its keyword if it is written, and parameters. -/
def primaryConstructor (rec : Productions) : Parser NodeId := do
  let start ← place
  let (children, _) ← modifiers rec #[]
  let children := add children (← eat .constructorKeyword)
  let (children, parameters) ← parametersIfAny rec children
  node .primaryConstructor start children (.primaryConstructor parameters)

/-- A primary constructor goes on with the line of the class. -/
def primaryConstructorIfAny (rec : Productions) : Parser (Option NodeId) := do
  -- Nothing but what may begin a constructor is looked for on the same line.
  if !(← startsLine) && ((← isAt .openParen) || (← isAt .constructorKeyword) || (← isAt .atSign) ||
      (← isAtModifier)) then
    return some (← primaryConstructor rec)
  else return none

/-- A class or interface after its modifiers, from its keyword on. -/
def classDeclaration (rec : Productions) (start : Nat) (children : Array NodeId)
    (found : List Modifier) : Parser NodeId := do
  let kind := if ← isAt .interfaceKeyword then ClassKind.interface else .plainClass
  let keyword ← bump
  let name ← bumpName
  let typeParameters ← typeParametersIfAny rec
  let primary ← primaryConstructorIfAny rec
  let (children, supertypes) ←
    supertypeList rec (children ++ among [some keyword, name, typeParameters, primary])
  let body ← classBodyIfAny rec
  node .classDeclaration start (add children body) (.classDeclaration
    { kind, modifiers := found, name, typeParameters, primaryConstructor := primary, supertypes,
      body })

/-- The name of an object goes on with its line. -/
def objectName : Parser (Option NodeId) := do
  if (← isAtName) && !(← startsLine) then bumpName else return none

/-- An object after its modifiers, from its keyword on. -/
def objectDeclaration (rec : Productions) (start : Nat) (children : Array NodeId)
    (found : List Modifier) : Parser NodeId := do
  -- The keyword has been taken for a modifier.
  let kind := if found.contains .companionWord then ClassKind.companionObject else .object
  let keyword ← bump
  let name ← objectName
  let (children, supertypes) ← supertypeList rec (children ++ among [some keyword, name])
  let body ← classBodyIfAny rec
  node .objectDeclaration start (add children body) (.classDeclaration
    { kind, modifiers := found, name, typeParameters := none, primaryConstructor := none,
      supertypes, body })

end KotlinTree.Grammar
