import KotlinTree.Grammar.Modifier

/-!
Types as they are written: named ones with their arguments, and function types.
-/

namespace KotlinTree.Grammar

/-- One entry between the parentheses of a function type. -/
def functionTypeStep (rec : Productions) (children : Array NodeId) :
    Parser (Step (Array NodeId)) := do
  match ← kind with
  | .closeParen | .endOfFile => return .done children
  | .comma => return .more (children.push (← bump))
  | k =>
    -- A name before a colon is the parameter's; the type comes after it.
    let named ← if k.isName && (← peek) = .colon then do
        let name ← bumpName
        let colon ← bump
        pure (add children name |>.push colon)
      else pure children
    match ← rec (.typeReference none) with
    | some parameter => return .more (named.push parameter)
    | none => return .more (named.push (← unknownToken))

/-- From the parenthesis of a function type, or of a type in parentheses, to its end. -/
def functionTypeRest (rec : Productions) (children : Array NodeId) : Parser (Array NodeId) := do
  let opened := children.push (← bump)
  let children ← repeating (functionTypeStep rec) opened
  let children := add children (← eat .closeParen)
  if ← isAt .arrow then
    let arrow ← bump
    return add (children.push arrow) (← rec (.typeReference none))
  else return children

/-- One entry between angle brackets: the children, and those of them that are types. -/
def typeArgumentStep (rec : Productions) :
    Array NodeId × Array NodeId → Parser (Step (Array NodeId × Array NodeId))
  | (children, arguments) => do
    match ← kind with
    | .greater | .endOfFile => return .done (children, arguments)
    -- A projection of everything is no type.
    | .comma | .asterisk => return .more (children.push (← bump), arguments)
    | k =>
      let children ← if (k = .inKeyword || (← isAtText "out")) && (← peek) = .identifier then
          pure (children.push (← bump))
        else pure children
      match ← rec (.typeReference none) with
      | some argument => return .more (children.push argument, arguments.push argument)
      | none => return .more (children.push (← unknownToken), arguments)

/-- Type arguments from the opening bracket on: the list, and the types in it. -/
def typeArgumentList (rec : Productions) : Parser (NodeId × Array NodeId) := do
  let start ← place
  let opened := #[← bump]
  let (children, arguments) ← repeating (typeArgumentStep rec) (opened, #[])
  let list ← node .typeArgumentList start (add children (← eat .greater))
  return (list, arguments)

/-- A question mark on the line of a type. -/
def nullabilityStep : Array NodeId × Bool → Parser (Step (Array NodeId × Bool))
  | (children, isNullable) => do
    if (← isAt .question) && !(← startsLine) then return .more (children.push (← bump), true)
    else return .done (children, isNullable)

/-- The node of a type whose parts have been read, after its question marks. -/
def finishType (start : Nat) (children : Array NodeId) (name : Option NodeId)
    (typeArguments : Array NodeId) : Parser (Option NodeId) := do
  let (children, isNullable) ← repeating nullabilityStep (children, false)
  return some (← node .typeReference start children
    (.typeReference { name, typeArguments, isNullable }))

/-- A named type, which may be the receiver of a function type. -/
def namedType (rec : Productions) (limit : Option Nat) (start : Nat) (children : Array NodeId) :
    Parser (Option NodeId) := do
  let (name, _) ← nameChain limit false
  let children := add children name
  -- On the next line, a bracket is an operator.
  let (children, typeArguments) ← if (← isAt .less) && !(← startsLine) then do
      let (list, arguments) ← typeArgumentList rec
      pure (children.push list, arguments)
    else pure (children, #[])
  if (← isAt .dot) && (← peek) = .openParen then
    -- What has been read is the receiver, so the function type has no name.
    let dot ← bump
    finishType start (← functionTypeRest rec (children.push dot)) none typeArguments
  else finishType start children name typeArguments

/-- A type after its annotations: a function type, or a name with type arguments. -/
def typeAfterAnnotations (rec : Productions) (limit : Option Nat) (start : Nat)
    (annotations : Array NodeId) : Parser (Option NodeId) := do
  -- The word is a modifier only before a parenthesis; else it is a name.
  let children ← if (← isAtText "suspend") && (← peek) = .openParen then
      pure (annotations.push (← bump))
    else pure annotations
  if ← isAt .openParen then
    finishType start (← functionTypeRest rec children) none #[]
  else if ← isAtName then namedType rec limit start children
  -- Nothing has been read but annotations, which are left out.
  else return none

/-- A type with its annotations, of at most so many names. -/
def typeReference (rec : Productions) (limit : Option Nat) : Parser (Option NodeId) := do
  let start ← place
  nested do
    -- Modifiers are read only where an annotation begins.
    let annotations ← if ← isAt .atSign then pure (← modifiers rec #[]).1 else pure #[]
    typeAfterAnnotations rec limit start annotations

end KotlinTree.Grammar
