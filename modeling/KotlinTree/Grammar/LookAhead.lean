import KotlinTree.Token.Basic

/-!
What the tokens ahead are going to be. Nothing is consumed here: each question is a function of
the tokens to come.
-/

namespace KotlinTree.Grammar

/-- Modifiers that are ordinary identifiers. -/
def identifierModifiers : List String :=
  ["suspend", "inline", "operator", "infix", "tailrec", "external", "annotation", "value",
    "expect", "actual", "vararg", "noinline", "crossinline", "reified"]

def isIdentifierModifier (t : Token) : Bool :=
  t.kind = .identifier && identifierModifiers.contains t.text

/-- A token that goes on with a declaration after a modifier. -/
def followsModifier (k : TokenKind) : Bool :=
  k.isModifier || [TokenKind.classKeyword, .interfaceKeyword, .objectKeyword, .funKeyword,
    .valKeyword, .varKeyword, .constructorKeyword, .getKeyword, .setKeyword, .atSign].contains k

/-- A modifier is one only before another, an annotation, a declaration keyword or a parameter's
name, mostly on the same line; elsewhere the word is a name. -/
def isModifierAhead : List Token → Bool
  | token :: ahead =>
    if token.kind.isModifier || isIdentifierModifier token then
      match ahead with
      | next :: after =>
        -- On the next line, only a keyword of a declaration makes the word a modifier.
        if next.startsLine && next.kind ≠ .atSign then
          [TokenKind.classKeyword, .funKeyword, .objectKeyword].contains next.kind
        else
          followsModifier next.kind || isIdentifierModifier next ||
            (next.kind = .identifier &&
              ((after.head?.map fun t => !t.startsLine && t.kind = .colon).getD false))
      | [] => false
    else false
  | [] => false

/-- After the bracket that closes type arguments, a call or a further member has to follow. -/
def followsTypeArguments : List Token → Bool
  | next :: _ =>
    -- A member may follow on the next line; a call may not.
    match next.kind with
    | .openParen | .openBrace => !next.startsLine
    | .colonColon | .dot => true
    | _ => false
  | [] => false

/-- A token that can stand inside type arguments. -/
def isInTypeArguments (k : TokenKind) : Bool :=
  [TokenKind.identifier, .dot, .comma, .question, .asterisk, .inKeyword, .openParen, .closeParen,
    .arrow, .colon].contains k || k.isSoftKeyword

/-- Type arguments, open at a depth, close and a call or a further member follows. -/
def typeArgumentsClose : Nat → List Token → Bool
  | _, [] => false
  | depth, token :: ahead =>
    if token.kind = .less then typeArgumentsClose (depth + 1) ahead
    else if token.kind = .greater then
      -- The bracket at the start was open already, so depth one closes it.
      if depth ≤ 1 then followsTypeArguments ahead else typeArgumentsClose (depth - 1) ahead
    else if isInTypeArguments token.kind then typeArgumentsClose depth ahead
    else false

/-- A token that can stand among the parameters of a lambda. -/
def isInLambdaParameters (k : TokenKind) : Bool :=
  [TokenKind.identifier, .comma, .colon, .dot, .question].contains k || k.isSoftKeyword

/-- An arrow outside brackets comes before anything that cannot stand among parameters. -/
def lambdaParametersAhead : Nat → List Token → Bool
  | _, [] => false
  | depth, token :: ahead =>
    -- An arrow inside parentheses belongs to a function type.
    if token.kind = .arrow then depth = 0
    else if token.kind = .openParen || token.kind = .less then lambdaParametersAhead (depth + 1) ahead
    else if token.kind = .closeParen || token.kind = .greater then
      if depth = 0 then false else lambdaParametersAhead (depth - 1) ahead
    else if isInLambdaParameters token.kind then lambdaParametersAhead depth ahead
    else false

/-- The tokens after type arguments that are open at a depth, if they close before a body. -/
def afterTypeArguments : Nat → List Token → Option (List Token)
  | _, [] => none
  | depth, token :: ahead =>
    match token.kind with
    | .less => afterTypeArguments (depth + 1) ahead
    | .greater => if depth ≤ 1 then some ahead else afterTypeArguments (depth - 1) ahead
    | .endOfFile | .openBrace | .equals => none
    | _ => afterTypeArguments depth ahead

/-- The tokens after type arguments at the front, if there are any. -/
def pastTypeArguments : List Token → Option (List Token)
  | [] => some []
  | token :: ahead =>
    if token.kind = .less then afterTypeArguments 1 ahead else some (token :: ahead)

/-- The tokens after a question mark at the front, if there is one. -/
def pastQuestion : List Token → List Token
  | [] => []
  | token :: ahead => if token.kind = .question then ahead else token :: ahead

/-- The tokens after the type arguments and the nullability mark of a name. -/
def afterNameMarks (ahead : List Token) : Option (List Token) :=
  (pastTypeArguments ahead).map pastQuestion

/-- How many names a dotted chain has, looking at no more than `n`. -/
def chainLength : Nat → List Token → Option Nat
  | 0, _ | _, [] => some 0
  | n + 1, token :: ahead =>
    -- Marks after a name are passed over; they may hold brackets, and end before a body.
    if token.kind.isName then
      match afterNameMarks ahead with
      | none => none
      | some (next :: after) =>
        -- Whatever else follows, the name is the last one.
        if next.kind = .dot || next.kind = .questionDot then (chainLength n after).map (· + 1)
        else some 1
      | some [] => some 1
    else some 0

/-- How many names in front of a declared one are its receiver type. -/
def receiverLength (tokens : List Token) : Nat :=
  -- The last name is the declared one, and no part of the receiver.
  ((chainLength tokens.length tokens).getD 0) - 1

/-- What can follow the word of an accessor on its line. -/
def followsAccessor : List Token → Bool
  | next :: _ => next.startsLine ||
      [TokenKind.openParen, .equals, .closeBrace, .semicolon, .endOfFile].contains next.kind
  | [] => true

/-- An accessor of a property, after modifiers and annotations. -/
def isAccessorAhead : List Token → Bool
  | [] => false
  | token :: ahead =>
    -- A modifier takes a name after it along, so that the name of an annotation is not looked at.
    if token.kind.isModifier || token.kind = .atSign then
      match ahead with
      | next :: after =>
        if next.kind = .identifier then isAccessorAhead after else isAccessorAhead (next :: after)
      | [] => false
    else (token.kind = .getKeyword || token.kind = .setKeyword) && followsAccessor ahead

end KotlinTree.Grammar
