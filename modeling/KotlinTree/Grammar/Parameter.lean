import KotlinTree.Grammar.Type

/-!
Parameters of functions, constructors and types.
-/

namespace KotlinTree.Grammar

/-- A type after a colon: the children with it, and the type. -/
def typeAscription (rec : Productions) (children : Array NodeId) :
    Parser (Array NodeId × Option NodeId) := do
  if ← isAt .colon then
    let colon ← bump
    let typeRef ← rec (.typeReference none)
    return (add (children.push colon) typeRef, typeRef)
  else return (children, none)

/-- A value after an equals sign: the children with it, and the value. -/
def assignedValue (rec : Productions) (children : Array NodeId) :
    Parser (Array NodeId × Option NodeId) := do
  if ← isAt .equals then
    let equals ← bump
    let value ← rec .expression
    return (add (children.push equals) value, value)
  else return (children, none)

/-- A parameter: modifiers, a keyword that makes it a property, a name, a type and a default. -/
def parameter (rec : Productions) : Parser (Option NodeId) := do
  let start ← place
  let (children, found) ← modifiers rec #[]
  let isVar ← isAt .varKeyword
  let bindingKeyword ← if (← isAt .valKeyword) || isVar then some <$> bump else pure none
  let children := add children bindingKeyword
  let name ← bumpName
  if name.isNone && children.isEmpty then return none
  else
    let (children, typeRef) ← typeAscription rec (add children name)
    let (children, defaultValue) ← assignedValue rec children
    return some (← node .parameter start children
      (.parameter { modifiers := found, bindingKeyword, isVar, name, typeRef, defaultValue }))

/-- One entry between the parentheses of a declaration: the children, and the parameters. -/
def parameterStep (rec : Productions) :
    Array NodeId × Array NodeId → Parser (Step (Array NodeId × Array NodeId))
  | (children, parameters) => do
    match ← kind with
    | .closeParen | .endOfFile | .closeBrace => return .done (children, parameters)
    | .comma => return .more (children.push (← bump), parameters)
    | _ =>
      match ← parameter rec with
      | some parameter => return .more (children.push parameter, parameters.push parameter)
      | none => return .more (children.push (← unknownToken), parameters)

/-- Parameters from the opening parenthesis on, as further children. -/
def parameterList (rec : Productions) (children : Array NodeId) :
    Parser (Array NodeId × Array NodeId) := do
  let opened := children.push (← bump)
  let (children, parameters) ← repeating (parameterStep rec) (opened, #[])
  return (add children (← eat .closeParen), parameters)

/-- Parameters if a parenthesis opens here. -/
def parametersIfAny (rec : Productions) (children : Array NodeId) :
    Parser (Array NodeId × Array NodeId) := do
  if ← isAt .openParen then parameterList rec children else return (children, #[])

/-- Variance of a type parameter, before its name. -/
def varianceStep (children : Array NodeId) : Parser (Step (Array NodeId)) := do
  if ((← isAt .inKeyword) || (← isAtText "out") || (← isAtText "reified")) &&
      (← peek) = .identifier then
    return .more (children.push (← bump))
  else return .done children

/-- One type parameter with its bound; leaves read before a missing name are dropped. -/
def typeParameter (rec : Productions) : Parser (Option NodeId) := do
  let start ← place
  let children ← repeating varianceStep #[]
  match ← bumpName with
  | none => return none
  | some name =>
    let (children, typeRef) ← typeAscription rec (children.push name)
    return some (← node .parameter start children
      (.parameter { modifiers := [], bindingKeyword := none, isVar := false, name := some name,
                    typeRef, defaultValue := none }))

/-- One entry between the brackets of type parameters. -/
def typeParameterStep (rec : Productions) (children : Array NodeId) :
    Parser (Step (Array NodeId)) := do
  match ← kind with
  | .greater | .endOfFile => return .done children
  | .comma => return .more (children.push (← bump))
  | _ =>
    match ← typeParameter rec with
    | some parameter => return .more (children.push parameter)
    | none => return .more (children.push (← unknownToken))

/-- Type parameters if an angle bracket opens here. -/
def typeParametersIfAny (rec : Productions) : Parser (Option NodeId) := do
  if ← isAt .less then
    let start ← place
    let opened := #[← bump]
    let children ← repeating (typeParameterStep rec) opened
    return some (← node .typeParameterList start (add children (← eat .greater)))
  else return none

end KotlinTree.Grammar
