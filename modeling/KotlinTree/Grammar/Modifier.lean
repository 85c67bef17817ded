import KotlinTree.Grammar.LookAhead
import KotlinTree.Grammar.State

/-!
Names with points between them, arguments of calls, and with these the modifiers and annotations in front
of declarations, parameters and types.
-/

namespace KotlinTree.Grammar

/-- One more name of a chain, or the star after it. -/
def nameChainStep (limit : Option Nat) (allowStar : Bool) (start : Nat) :
    NodeId × Nat × Array NodeId → Parser (Step (NodeId × Nat × Array NodeId))
  | (left, names, star) => do
    -- The limit is on names, so the chain ends before the point that would make it longer.
    if (← isAt .dot) && (limit.map fun n => names < n : Option Bool).getD true then
      let next ← peek
      if next.isName then
        let dot ← bump
        let name ← bumpName
        let access ← node .propertyAccessExpression start (among [some left, some dot, name])
          (.access { expression := left, operator := dot, name, isNullSafe := false })
        return .more (access, names + 1, star)
      else if allowStar && next = .asterisk then
        let dot ← bump
        let asterisk ← bump
        return .done (left, names, star.push dot |>.push asterisk)
      else return .done (left, names, star)
    else return .done (left, names, star)

/-- Names with points between them, as accesses nested to the left, and the star after them. -/
def nameChain (limit : Option Nat) (allowStar : Bool) : Parser (Option NodeId × Array NodeId) := do
  let start ← place
  match ← bumpName with
  | none => return (none, #[])
  | some first =>
    let (left, _, star) ← repeating (nameChainStep limit allowStar start) (first, 1, #[])
    return (some left, star)

/-- One argument, with its name and its spread sign. -/
def valueArgument (rec : Productions) : Parser (Option NodeId) := do
  let start ← place
  -- A name is the argument's only if its sign follows; else it begins the value.
  let (name, children) ← if (← isAtName) && (← peek) = .equals then do
      let name ← bumpName
      let equals ← bump
      pure (name, (add #[] name).push equals)
    else pure (none, #[])
  let spread ← eat .asterisk
  let children := add children spread
  let expression ← rec .expression
  -- An argument of nothing is none; a name or a spread sign without a value is one.
  if expression.isNone && children.isEmpty then return none
  else return some (← node .valueArgument start (add children expression)
    (.valueArgument { name, expression, isSpread := spread.isSome }))

/-- One entry between the parentheses of a call: the children, and those that are arguments. -/
def valueArgumentStep (rec : Productions) :
    Array NodeId × Array NodeId → Parser (Step (Array NodeId × Array NodeId))
  | (children, arguments) => do
    match ← kind with
    | .closeParen | .endOfFile => return .done (children, arguments)
    | .comma => return .more (children.push (← bump), arguments)
    -- A closer of another bracket is kept inside, so that the list ends at its own.
    | .closeBrace | .closeBracket => return .more (children.push (← unknownToken), arguments)
    | _ =>
      match ← valueArgument rec with
      | some argument => return .more (children.push argument, arguments.push argument)
      | none => return .more (children.push (← unknownToken), arguments)

/-- Arguments from the opening parenthesis on: the list, and the arguments in it. -/
def valueArgumentList (rec : Productions) : Parser (NodeId × Array NodeId) := do
  let start ← place
  let opened := #[← bump]
  let (children, arguments) ← withTrailingLambda true (repeating (valueArgumentStep rec) (opened, #[]))
  let list ← node .valueArgumentList start (add children (← eat .closeParen))
  return (list, arguments)

/-- The current token is a modifier here. -/
def isAtModifier : Parser Bool := do return isModifierAhead (← get).tokens

/-- No trivia is before the current token. -/
def isAttached : Parser Bool := do return (← get).current.leading.isEmpty

/-- An annotation: a name, perhaps with a target before it, and arguments right after it. -/
def annotationUse (rec : Productions) : Parser NodeId := do
  let start ← place
  let sign ← bump
  let (name, _) ← nameChain none false
  let children := add #[sign] name
  -- A target has its colon right after it; after white space, the colon is a type's.
  let children ← if (← isAt .colon) && (← isAttached) then do
      let colon ← bump
      let (name, _) ← nameChain none false
      pure (add (children.push colon) name)
    else pure children
  let children ← if (← isAt .openParen) && (← isAttached) then do
      let (list, _) ← valueArgumentList rec
      pure (children.push list)
    else pure children
  node .annotationUse start children

/-- The modifiers that a token is. -/
def modifiersOf (t : Token) : List Modifier :=
  (Modifier.ofToken? t.kind).toList ++ if t.text = "vararg" then [.varargWord] else []

/-- One more modifier or annotation. -/
def modifierStep (rec : Productions) :
    Array NodeId × List Modifier → Parser (Step (Array NodeId × List Modifier))
  | (list, found) => do
    -- An annotation stands among the modifiers, and is none of them.
    if ← isAt .atSign then return .more (list.push (← annotationUse rec), found)
    else if ← isAtModifier then
      let new := modifiersOf (← get).current
      return .more (list.push (← bump), found ++ new)
    else return .done (list, found)

/-- Modifiers and annotations as one more child, and which modifiers they are. -/
def modifiers (rec : Productions) (children : Array NodeId) :
    Parser (Array NodeId × List Modifier) := do
  let start ← place
  let (list, found) ← repeating (modifierStep rec) (#[], [])
  if list.isEmpty then return (children, found)
  else return (children.push (← node .modifierList start list), found)

end KotlinTree.Grammar
