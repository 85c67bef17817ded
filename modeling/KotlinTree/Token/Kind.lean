/-!
Kinds of token. The order of the kinds is part of their meaning: keywords come last, and among
them the soft ones, which are identifiers outside their place in the grammar.
-/

namespace KotlinTree

/-- What a token is. -/
inductive TokenKind where
  | unknown | endOfFile | numericLiteral | stringLiteral | characterLiteral | identifier
  | openBrace | closeBrace | openParen | closeParen | openBracket | closeBracket | dot | dotDot
  | dotDotLess | questionDot | comma | semicolon | colon | colonColon | question
  | questionColon | atSign | arrow | bang | bangBang | equals | equalsEquals
  | equalsEqualsEquals | bangEquals | bangEqualsEquals | less | greater | lessEquals
  | greaterEquals | plus | minus | asterisk | slash | percent | plusPlus | minusMinus
  | plusEquals | minusEquals | asteriskEquals | slashEquals | percentEquals | andAnd | orOr
  | asKeyword | asSafeKeyword | breakKeyword | classKeyword | continueKeyword | doKeyword
  | elseKeyword | falseKeyword | forKeyword | funKeyword | ifKeyword | inKeyword | notInKeyword
  | interfaceKeyword | isKeyword | notIsKeyword | nullKeyword | objectKeyword | packageKeyword
  | returnKeyword | superKeyword | thisKeyword | throwKeyword | trueKeyword | tryKeyword
  | typealiasKeyword | valKeyword | varKeyword | whenKeyword | whileKeyword | importKeyword
  | companionKeyword | openKeyword | abstractKeyword | dataKeyword | privateKeyword
  | publicKeyword | internalKeyword | protectedKeyword | overrideKeyword | finalKeyword
  | sealedKeyword | innerKeyword | enumKeyword | constKeyword | lateinitKeyword
  | constructorKeyword | initKeyword | byKeyword | getKeyword | setKeyword | whereKeyword
  deriving DecidableEq, Repr, Inhabited

namespace TokenKind

/-- The place of a kind in the order. -/
def code (k : TokenKind) : Nat := k.ctorIdx

/-- All kinds in order. -/
def all : List TokenKind :=
  [.unknown, .endOfFile, .numericLiteral, .stringLiteral, .characterLiteral, .identifier,
    .openBrace, .closeBrace, .openParen, .closeParen, .openBracket, .closeBracket, .dot, .dotDot,
    .dotDotLess, .questionDot, .comma, .semicolon, .colon, .colonColon, .question,
    .questionColon, .atSign, .arrow, .bang, .bangBang, .equals, .equalsEquals,
    .equalsEqualsEquals, .bangEquals, .bangEqualsEquals, .less, .greater, .lessEquals,
    .greaterEquals, .plus, .minus, .asterisk, .slash, .percent, .plusPlus, .minusMinus,
    .plusEquals, .minusEquals, .asteriskEquals, .slashEquals, .percentEquals, .andAnd, .orOr,
    .asKeyword, .asSafeKeyword, .breakKeyword, .classKeyword, .continueKeyword, .doKeyword,
    .elseKeyword, .falseKeyword, .forKeyword, .funKeyword, .ifKeyword, .inKeyword, .notInKeyword,
    .interfaceKeyword, .isKeyword, .notIsKeyword, .nullKeyword, .objectKeyword, .packageKeyword,
    .returnKeyword, .superKeyword, .thisKeyword, .throwKeyword, .trueKeyword, .tryKeyword,
    .typealiasKeyword, .valKeyword, .varKeyword, .whenKeyword, .whileKeyword, .importKeyword,
    .companionKeyword, .openKeyword, .abstractKeyword, .dataKeyword, .privateKeyword,
    .publicKeyword, .internalKeyword, .protectedKeyword, .overrideKeyword, .finalKeyword,
    .sealedKeyword, .innerKeyword, .enumKeyword, .constKeyword, .lateinitKeyword,
    .constructorKeyword, .initKeyword, .byKeyword, .getKeyword, .setKeyword, .whereKeyword]

/-- The kind at a place of the order. -/
def ofCode? (n : Nat) : Option TokenKind := all[n]?

/-- The name of a kind in listings. -/
def name : TokenKind → String
  | .unknown => "Unknown"
  | .endOfFile => "EndOfFileToken"
  | .numericLiteral => "NumericLiteral"
  | .stringLiteral => "StringLiteral"
  | .characterLiteral => "CharacterLiteral"
  | .identifier => "Identifier"
  | .openBrace => "OpenBraceToken"
  | .closeBrace => "CloseBraceToken"
  | .openParen => "OpenParenToken"
  | .closeParen => "CloseParenToken"
  | .openBracket => "OpenBracketToken"
  | .closeBracket => "CloseBracketToken"
  | .dot => "DotToken"
  | .dotDot => "DotDotToken"
  | .dotDotLess => "DotDotLessThanToken"
  | .questionDot => "QuestionDotToken"
  | .comma => "CommaToken"
  | .semicolon => "SemicolonToken"
  | .colon => "ColonToken"
  | .colonColon => "ColonColonToken"
  | .question => "QuestionToken"
  | .questionColon => "QuestionColonToken"
  | .atSign => "AtToken"
  | .arrow => "MinusGreaterThanToken"
  | .bang => "ExclamationToken"
  | .bangBang => "ExclamationExclamationToken"
  | .equals => "EqualsToken"
  | .equalsEquals => "EqualsEqualsToken"
  | .equalsEqualsEquals => "EqualsEqualsEqualsToken"
  | .bangEquals => "ExclamationEqualsToken"
  | .bangEqualsEquals => "ExclamationEqualsEqualsToken"
  | .less => "LessThanToken"
  | .greater => "GreaterThanToken"
  | .lessEquals => "LessThanEqualsToken"
  | .greaterEquals => "GreaterThanEqualsToken"
  | .plus => "PlusToken"
  | .minus => "MinusToken"
  | .asterisk => "AsteriskToken"
  | .slash => "SlashToken"
  | .percent => "PercentToken"
  | .plusPlus => "PlusPlusToken"
  | .minusMinus => "MinusMinusToken"
  | .plusEquals => "PlusEqualsToken"
  | .minusEquals => "MinusEqualsToken"
  | .asteriskEquals => "AsteriskEqualsToken"
  | .slashEquals => "SlashEqualsToken"
  | .percentEquals => "PercentEqualsToken"
  | .andAnd => "AmpersandAmpersandToken"
  | .orOr => "BarBarToken"
  | .asKeyword => "AsKeyword"
  | .asSafeKeyword => "AsSafeKeyword"
  | .breakKeyword => "BreakKeyword"
  | .classKeyword => "ClassKeyword"
  | .continueKeyword => "ContinueKeyword"
  | .doKeyword => "DoKeyword"
  | .elseKeyword => "ElseKeyword"
  | .falseKeyword => "FalseKeyword"
  | .forKeyword => "ForKeyword"
  | .funKeyword => "FunKeyword"
  | .ifKeyword => "IfKeyword"
  | .inKeyword => "InKeyword"
  | .notInKeyword => "NotInKeyword"
  | .interfaceKeyword => "InterfaceKeyword"
  | .isKeyword => "IsKeyword"
  | .notIsKeyword => "NotIsKeyword"
  | .nullKeyword => "NullKeyword"
  | .objectKeyword => "ObjectKeyword"
  | .packageKeyword => "PackageKeyword"
  | .returnKeyword => "ReturnKeyword"
  | .superKeyword => "SuperKeyword"
  | .thisKeyword => "ThisKeyword"
  | .throwKeyword => "ThrowKeyword"
  | .trueKeyword => "TrueKeyword"
  | .tryKeyword => "TryKeyword"
  | .typealiasKeyword => "TypealiasKeyword"
  | .valKeyword => "ValKeyword"
  | .varKeyword => "VarKeyword"
  | .whenKeyword => "WhenKeyword"
  | .whileKeyword => "WhileKeyword"
  | .importKeyword => "ImportKeyword"
  | .companionKeyword => "CompanionKeyword"
  | .openKeyword => "OpenKeyword"
  | .abstractKeyword => "AbstractKeyword"
  | .dataKeyword => "DataKeyword"
  | .privateKeyword => "PrivateKeyword"
  | .publicKeyword => "PublicKeyword"
  | .internalKeyword => "InternalKeyword"
  | .protectedKeyword => "ProtectedKeyword"
  | .overrideKeyword => "OverrideKeyword"
  | .finalKeyword => "FinalKeyword"
  | .sealedKeyword => "SealedKeyword"
  | .innerKeyword => "InnerKeyword"
  | .enumKeyword => "EnumKeyword"
  | .constKeyword => "ConstKeyword"
  | .lateinitKeyword => "LateinitKeyword"
  | .constructorKeyword => "ConstructorKeyword"
  | .initKeyword => "InitKeyword"
  | .byKeyword => "ByKeyword"
  | .getKeyword => "GetKeyword"
  | .setKeyword => "SetKeyword"
  | .whereKeyword => "WhereKeyword"

/-- The one text of a kind, for kinds that have just one. -/
def text? : TokenKind → Option String
  | .openBrace => some "\x7b"
  | .closeBrace => some "\x7d"
  | .openParen => some "("
  | .closeParen => some ")"
  | .openBracket => some "["
  | .closeBracket => some "]"
  | .dot => some "."
  | .dotDot => some ".."
  | .dotDotLess => some "..<"
  | .questionDot => some "?."
  | .comma => some ","
  | .semicolon => some ";"
  | .colon => some ":"
  | .colonColon => some "::"
  | .question => some "?"
  | .questionColon => some "?:"
  | .atSign => some "@"
  | .arrow => some "->"
  | .bang => some "!"
  | .bangBang => some "!!"
  | .equals => some "="
  | .equalsEquals => some "=="
  | .equalsEqualsEquals => some "==="
  | .bangEquals => some "!="
  | .bangEqualsEquals => some "!=="
  | .less => some "<"
  | .greater => some ">"
  | .lessEquals => some "<="
  | .greaterEquals => some ">="
  | .plus => some "+"
  | .minus => some "-"
  | .asterisk => some "*"
  | .slash => some "/"
  | .percent => some "%"
  | .plusPlus => some "++"
  | .minusMinus => some "--"
  | .plusEquals => some "+="
  | .minusEquals => some "-="
  | .asteriskEquals => some "*="
  | .slashEquals => some "/="
  | .percentEquals => some "%="
  | .andAnd => some "&&"
  | .orOr => some "||"
  | .asKeyword => some "as"
  | .asSafeKeyword => some "as?"
  | .breakKeyword => some "break"
  | .classKeyword => some "class"
  | .continueKeyword => some "continue"
  | .doKeyword => some "do"
  | .elseKeyword => some "else"
  | .falseKeyword => some "false"
  | .forKeyword => some "for"
  | .funKeyword => some "fun"
  | .ifKeyword => some "if"
  | .inKeyword => some "in"
  | .notInKeyword => some "!in"
  | .interfaceKeyword => some "interface"
  | .isKeyword => some "is"
  | .notIsKeyword => some "!is"
  | .nullKeyword => some "null"
  | .objectKeyword => some "object"
  | .packageKeyword => some "package"
  | .returnKeyword => some "return"
  | .superKeyword => some "super"
  | .thisKeyword => some "this"
  | .throwKeyword => some "throw"
  | .trueKeyword => some "true"
  | .tryKeyword => some "try"
  | .typealiasKeyword => some "typealias"
  | .valKeyword => some "val"
  | .varKeyword => some "var"
  | .whenKeyword => some "when"
  | .whileKeyword => some "while"
  | .importKeyword => some "import"
  | .companionKeyword => some "companion"
  | .openKeyword => some "open"
  | .abstractKeyword => some "abstract"
  | .dataKeyword => some "data"
  | .privateKeyword => some "private"
  | .publicKeyword => some "public"
  | .internalKeyword => some "internal"
  | .protectedKeyword => some "protected"
  | .overrideKeyword => some "override"
  | .finalKeyword => some "final"
  | .sealedKeyword => some "sealed"
  | .innerKeyword => some "inner"
  | .enumKeyword => some "enum"
  | .constKeyword => some "const"
  | .lateinitKeyword => some "lateinit"
  | .constructorKeyword => some "constructor"
  | .initKeyword => some "init"
  | .byKeyword => some "by"
  | .getKeyword => some "get"
  | .setKeyword => some "set"
  | .whereKeyword => some "where"
  | _ => none

def isKeywordKind (k : TokenKind) : Bool := asKeyword.code ≤ k.code

/-- A keyword that is an identifier where the grammar does not ask for it. -/
def isSoftKeyword (k : TokenKind) : Bool := importKeyword.code ≤ k.code

def isHardKeyword (k : TokenKind) : Bool := k.isKeywordKind && !k.isSoftKeyword

def isModifier : TokenKind → Bool
  | .openKeyword | .abstractKeyword | .dataKeyword | .privateKeyword | .publicKeyword
  | .internalKeyword | .protectedKeyword | .overrideKeyword | .finalKeyword | .sealedKeyword
  | .innerKeyword | .enumKeyword | .constKeyword | .lateinitKeyword | .companionKeyword => true
  | _ => false

def isAssignmentOperator : TokenKind → Bool
  | .equals | .plusEquals | .minusEquals | .asteriskEquals | .slashEquals | .percentEquals => true
  | _ => false

/-- Keywords that are written as a word, with that word. -/
def keywords : List (String × TokenKind) :=
  (all.filter fun k => k.isKeywordKind && k ≠ .asSafeKeyword && k ≠ .notInKeyword && k ≠ .notIsKeyword)
    |>.filterMap fun k => k.text?.map fun text => (text, k)

/-- The keyword that a word is. -/
def keyword? (word : String) : Option TokenKind := keywords.lookup word

/-- A word that can be a name: an identifier or a soft keyword. -/
def isName (k : TokenKind) : Bool := k = .identifier || k.isSoftKeyword

@[simp] theorem ofCode?_code (k : TokenKind) : ofCode? k.code = some k := by
  cases k <;> rfl

end TokenKind

end KotlinTree
