import KotlinTree.Grammar.Declaration

/-!
Expressions. Operators bind by precedence and to the left; a postfix operator binds tightest.
-/

namespace KotlinTree.Grammar

/-- A label right after a keyword: the children, and the label's name. -/
def labelIfAny (children : Array NodeId) : Parser (Array NodeId × Option NodeId) := do
  if (← isAt .atSign) && (← isAttached) then
    let sign ← bump
    let label ← bumpName
    return (add (children.push sign) label, label)
  else return (children, none)

/-- The current object, or an outer one by its label. -/
def thisExpression : Parser NodeId := do
  let start ← place
  let keyword ← bump
  let (children, label) ← labelIfAny #[keyword]
  node .thisExpression start children (.selfReference { keyword, label, superType := none })

/-- The supertype that is meant, in angle brackets right after the keyword. -/
def superType (rec : Productions) (children : Array NodeId) :
    Parser (Array NodeId × Option NodeId) := do
  if (← isAt .less) && (← isAttached) then
    let opened := children.push (← bump)
    let superType ← rec (.typeReference none)
    let children := add opened superType
    return (add children (← eat .greater), superType)
  else return (children, none)

/-- The current object as its superclass sees it. -/
def superExpression (rec : Productions) : Parser NodeId := do
  let start ← place
  let keyword ← bump
  let (children, superType) ← superType rec #[keyword]
  let (children, label) ← labelIfAny children
  node .superExpression start children (.selfReference { keyword, label, superType })

/-- An expression in parentheses. -/
def parenthesized (rec : Productions) : Parser NodeId := do
  let start ← place
  let opened := #[← bump]
  let expression ← withTrailingLambda true (rec .expression)
  let children := add opened expression
  node .parenthesizedExpression start (add children (← eat .closeParen)) (.parenthesized expression)

/-- The branch after `else`, and a semicolon before it. -/
def elseBranch (rec : Productions) (children : Array NodeId) :
    Parser (Array NodeId × Option NodeId) := do
  -- A semicolon is part of the choice only if the alternative follows at once.
  let children ← if (← isAt .semicolon) && (← peek) = .elseKeyword then
      pure (children.push (← bump))
    else pure children
  if ← isAt .elseKeyword then
    let keyword ← bump
    let branch ← controlBody rec
    return (add (children.push keyword) branch, branch)
  else return (children, none)

/-- A condition and its branches. -/
def ifExpression (rec : Productions) : Parser NodeId := do
  let start ← place
  let keyword ← bump
  let opened := add #[keyword] (← eat .openParen)
  -- Inside the parentheses and the branches, a brace may be a lambda again.
  let (children, expression) ← withTrailingLambda true do
    let condition ← rec .expression
    let children := add opened condition
    let children := add children (← eat .closeParen)
    let thenBranch ← controlBody rec
    let (children, elseBranch) ← elseBranch rec (add children thenBranch)
    return (children, ({ condition, thenBranch, elseBranch } : IfExpression))
  node .ifExpression start children (.ifExpression expression)

/-- A return, with its label and the value on its line. -/
def returnExpression (rec : Productions) : Parser NodeId := do
  let start ← place
  let keyword ← bump
  -- A label is a child, but the node's data does not name it.
  let (children, _) ← labelIfAny #[keyword]
  let expression ← if ← startsLine then pure none else rec .expression
  node .returnStatement start (add children expression) (.returnStatement expression)

/-- A jump with its label, and the value that is thrown. -/
def jumpExpression (rec : Productions) : Parser NodeId := do
  let start ← place
  let isThrow ← isAt .throwKeyword
  let keyword ← bump
  let (children, _) ← labelIfAny #[keyword]
  let children ← if isThrow then pure (add children (← rec .expression)) else pure children
  node .jumpExpression start children

/-- A reference to a member after a double colon. -/
def callableReference (start : Nat) (receiver : Option NodeId) : Parser NodeId := do
  let colons ← bump
  let name ← if ← isAt .classKeyword then some <$> bump else bumpName
  node .callableReference start (among [receiver, some colons, name])
    (.callableReference { receiver, name })

/-- An expression without operators. Nothing starts with a closing bracket or a separator; a token
that starts no expression is kept. -/
def primary (rec : Productions) : Parser (Option NodeId) := do
  let start ← place
  match ← kind with
  | .identifier => some <$> bump
  | .numericLiteral | .stringLiteral | .characterLiteral
  | .trueKeyword | .falseKeyword | .nullKeyword => some <$> bump
  | .thisKeyword => some <$> thisExpression
  | .superKeyword => some <$> superExpression rec
  | .openParen => some <$> parenthesized rec
  | .openBrace => some <$> lambda rec
  | .ifKeyword => some <$> ifExpression rec
  | .returnKeyword => some <$> returnExpression rec
  | .throwKeyword | .breakKeyword | .continueKeyword => some <$> jumpExpression rec
  | .colonColon => some <$> callableReference start none
  | .objectKeyword => some <$> objectDeclaration rec start #[] []
  -- A function without a name is an expression; the declaration reads both.
  | .funKeyword => rec .declaration
  | .whenKeyword | .tryKeyword | .forKeyword | .whileKeyword | .doKeyword => some <$> unknown
  | .closeBrace | .closeParen | .closeBracket | .endOfFile | .semicolon | .comma | .arrow
  | .elseKeyword => return none
  -- A keyword that may be a name is one here.
  | k => if k.isSoftKeyword then some <$> bumpAs .identifier else some <$> unknownToken

/-- A member after a point. -/
def memberAccess (start : Nat) (expression : NodeId) : Parser NodeId := do
  let isNullSafe ← isAt .questionDot
  let operator ← bump
  let name ← bumpName
  let access ← node .propertyAccessExpression start (among [some expression, some operator, name])
    (.access { expression, operator, name, isNullSafe })
  if isNullSafe then change access fun n => { n with isNullSafe := true }
  return access

/-- A lambda after a call, on its line. -/
def trailingLambda (rec : Productions) : Parser (Option NodeId) := do
  if (← isAt .openBrace) && !(← startsLine) && !(← get).noTrailingLambda then
    return some (← lambda rec)
  else return none

/-- A call with arguments, a lambda or both. -/
def call (rec : Productions) (start : Nat) (callee : NodeId) (typeArgumentList : Option NodeId)
    (typeArguments : Array NodeId) : Parser NodeId := do
  let (argumentList, arguments) ← if ← isAt .openParen then do
      let (list, arguments) ← valueArgumentList rec
      pure (some list, arguments)
    else pure (none, #[])
  let trailingLambda ← trailingLambda rec
  node .callExpression start (among [some callee, typeArgumentList, argumentList, trailingLambda])
    (.call { callee, typeArguments, argumentList, arguments, trailingLambda })

/-- Type arguments, and the call that they are for; without one they are kept as they are. -/
def typeArgumentsThenCall (rec : Productions) (start : Nat) (expression : NodeId) :
    Parser NodeId := do
  let (list, arguments) ← typeArgumentList rec
  if (← isAt .openParen) || (← isAt .openBrace) then
    call rec start expression (some list) arguments
  -- Nothing is called after all: what has been read is kept, and not read again as a comparison.
  else node .unknown start #[expression, list]

/-- One entry between the brackets of an index. -/
def indexStep (rec : Productions) (children : Array NodeId) : Parser (Step (Array NodeId)) := do
  match ← kind with
  | .closeBracket | .endOfFile => return .done children
  | .comma => return .more (children.push (← bump))
  | _ =>
    match ← rec .expression with
    | some index => return .more (children.push index)
    | none => return .more (children.push (← unknownToken))

/-- An element by its index. -/
def indexing (rec : Productions) (start : Nat) (expression : NodeId) : Parser NodeId := do
  let opened := #[expression].push (← bump)
  let children ← repeating (indexStep rec) opened
  node .indexingExpression start (add children (← eat .closeBracket))

/-- An operator after its operand. -/
def postfixOperator (start : Nat) (expression : NodeId) : Parser NodeId := do
  let operator ← kind
  let token ← bump
  node .postfixUnaryExpression start #[expression, token]
    (.unary { operator, operand := some expression })

/-- An expression that a lambda on its line is passed to. -/
def isCallee (f : Forest) (expression : NodeId) : Bool :=
  f.kind? (some expression) = some (.token .identifier) ||
    f.kind? (some expression) = some (.node .propertyAccessExpression)

/-- One more postfix operator. Members may follow on the next line, all else on the same one. -/
def postfixStep (rec : Productions) (start : Nat) (expression : NodeId) :
    Parser (Step NodeId) := do
  -- Members, and references by a double colon, may stand on the next line.
  let sameLine := !(← startsLine)
  match ← kind with
  | .dot | .questionDot => .more <$> memberAccess start expression
  | .openParen =>
    if sameLine then .more <$> call rec start expression none #[] else return .done expression
  | .less =>
    if sameLine && typeArgumentsClose 1 (← get).ahead then
      .more <$> typeArgumentsThenCall rec start expression
    else return .done expression
  | .openBrace =>
    -- A literal or a call in parentheses takes no lambda.
    if sameLine && !(← get).noTrailingLambda && isCallee (← get).forest expression then
      .more <$> call rec start expression none #[]
    else return .done expression
  | .openBracket =>
    if sameLine then .more <$> indexing rec start expression else return .done expression
  | .bangBang | .plusPlus | .minusMinus =>
    if sameLine then .more <$> postfixOperator start expression else return .done expression
  | .colonColon => .more <$> callableReference start (some expression)
  | _ => return .done expression

/-- A primary expression with the operators after it. -/
def postfixed (rec : Productions) : Parser (Option NodeId) := do
  let start ← place
  match ← primary rec with
  | none => return none
  | some expression => some <$> repeating (postfixStep rec start) expression

def isPrefixOperator : TokenKind → Bool
  | .minus | .plus | .bang | .bangBang | .plusPlus | .minusMinus => true
  | _ => false

/-- An operand with the operators before it. -/
def prefixed (rec : Productions) : Parser (Option NodeId) := do
  let operator ← kind
  if isPrefixOperator operator then
    -- The operand is read with the operators before it, so they are applied from the right.
    nested do
      let start ← place
      let token ← bump
      let operand ← rec .prefixed
      return some (← node .prefixUnaryExpression start (among [some token, operand])
        (.unary { operator, operand }))
  else postfixed rec

/-- A cast, on the line of what is cast. -/
def castStep (rec : Productions) (start : Nat) (expression : NodeId) : Parser (Step NodeId) := do
  let operator ← kind
  if (operator = .asKeyword || operator = .asSafeKeyword) && !(← startsLine) then
    let token ← bump
    let typeRef ← rec (.typeReference none)
    .more <$> node .asExpression start (among [some expression, some token, typeRef])
      (.typeOperation { expression, operator, typeRef })
  else return .done expression

/-- An operand with the casts after it. -/
def operand (rec : Productions) : Parser (Option NodeId) := do
  let start ← place
  match ← rec .prefixed with
  | none => return none
  | some expression => some <$> repeating (castStep rec start) expression

/-- How tightly an operator binds. -/
def precedence? : TokenKind → Option Nat
  | .orOr => some 1
  | .andAnd => some 2
  | .equalsEquals | .bangEquals | .equalsEqualsEquals | .bangEqualsEquals => some 3
  | .less | .greater | .lessEquals | .greaterEquals => some 4
  | .inKeyword | .notInKeyword | .isKeyword | .notIsKeyword => some 5
  | .questionColon => some 6
  | .identifier => some 7
  | .dotDot | .dotDotLess => some 8
  | .plus | .minus => some 9
  | .asterisk | .slash | .percent => some 10
  | _ => none

/-- An operator that may start a line. -/
def continuesLine : TokenKind → Bool
  | .questionColon | .andAnd | .orOr => true
  | _ => false

/-- One more operator that binds tightly enough, with its right side. -/
def binaryStep (rec : Productions) (minPrecedence start : Nat) (left : NodeId) :
    Parser (Step NodeId) := do
  let operator ← kind
  match precedence? operator with
  | none => return .done left
  | some precedence =>
    -- An operator at the start of a line begins a new statement, unless it cannot.
    if precedence < minPrecedence || ((← startsLine) && !continuesLine operator) then
      return .done left
    else if operator = .isKeyword || operator = .notIsKeyword then
      let token ← bump
      let typeRef ← rec (.typeReference none)
      .more <$> node .isExpression start (among [some left, some token, typeRef])
        (.typeOperation { expression := left, operator, typeRef })
    else
      let operatorToken ← bump
      -- One more than the operator's own: what binds as tightly stays to the left.
      let right ← rec (.binary (precedence + 1))
      let k := if operator = .questionColon then NodeKind.elvisExpression else .binaryExpression
      .more <$> node k start (among [some left, some operatorToken, right])
        (.binary { left, operator, operatorToken, right })

/-- Operands joined by operators that bind at least so tightly. -/
def binary (rec : Productions) (minPrecedence : Nat) : Parser (Option NodeId) := do
  let start ← place
  match ← operand rec with
  | none => return none
  | some left => some <$> repeating (binaryStep rec minPrecedence start) left

/-- An expression, unless it is nested too deep. -/
def expression (rec : Productions) : Parser (Option NodeId) := nested (rec (.binary 0))

end KotlinTree.Grammar
