import KotlinTree.Token.Kind
import KotlinTree.Token.Literal
import KotlinTree.Text.Parts

/-!
Tokens of a source text, each with the trivia before it, and the scan that finds them. Main
statement: a token and what follows it make up the text that was scanned.
-/

namespace KotlinTree

/-- A token in its place: `start` is the byte at which the trivia before it begins. -/
structure Token where
  kind : TokenKind
  flags : TokenFlags := {}
  /-- The trivia before the token. -/
  leading : String := ""
  text : String := ""
  start : Nat := 0
  deriving DecidableEq, Repr, Inhabited

namespace Token

/-- Where the token's own text begins. -/
def place (t : Token) : Nat := t.start + t.leading.utf8ByteSize

/-- Where the token ends. -/
def stop (t : Token) : Nat := t.place + t.text.utf8ByteSize

/-- The text a name stands for: without the backticks around it. -/
def value (t : Token) : String :=
  if t.flags.backticked && 2 ≤ t.text.utf8ByteSize then
    String.ofList (Text.trimBy (· = '`') t.text.toList)
  else t.text

/-- The token starts a new line. -/
def startsLine (t : Token) : Bool := Trivia.hasLineBreak t.leading

def isEnd (t : Token) : Bool := t.kind = .endOfFile

/-- The end of the file, right after a place. -/
def endAt (place : Nat) : Token := { kind := .endOfFile, start := place }

/-- What the front of a text is as a token, and the text after it. -/
structure Lexeme where
  kind : TokenKind
  flags : TokenFlags := {}
  rest : List Char
  deriving Repr

def isNameStart (c : Char) : Bool := c = '_' || Text.isAlphabetic c

def isNamePart (c : Char) : Bool := c = '_' || Text.isAlphanumeric c

/-- A word: a keyword or an identifier. A question mark right after `as` belongs to it. -/
def word (cs : List Char) : Lexeme :=
  let rest := cs.dropWhile isNamePart
  match TokenKind.keyword? (String.ofList (cs.takeWhile isNamePart)) with
  | some .asKeyword =>
    match rest with
    | '?' :: rest => { kind := .asSafeKeyword, rest }
    | rest => { kind := .asKeyword, rest }
  | some kind => { kind, rest }
  | none => { kind := .identifier, rest }

/-- Signs and operators, each before its own prefixes. -/
def signs : List TokenKind :=
  [.equalsEqualsEquals, .bangEqualsEquals, .dotDotLess, .questionDot, .questionColon, .colonColon,
    .dotDot, .arrow, .bangBang, .equalsEquals, .bangEquals, .lessEquals, .greaterEquals, .plusPlus,
    .minusMinus, .plusEquals, .minusEquals, .asteriskEquals, .slashEquals, .percentEquals, .andAnd,
    .orOr, .openBrace, .closeBrace, .openParen, .closeParen, .openBracket, .closeBracket, .dot,
    .comma, .semicolon, .colon, .question, .atSign, .bang, .equals, .less, .greater, .plus, .minus,
    .asterisk, .slash, .percent]

/-- The first of some signs that a text starts with, and the text after it. -/
def signAmong : List TokenKind → List Char → Option Lexeme
  | [], _ => none
  | kind :: kinds, cs =>
    match (kind.text?.getD "").toList.isPrefixOf? cs with
    | some rest => some { kind, rest }
    | none => signAmong kinds cs

/-- A negated keyword, which ends where no name could go on. -/
def negated (kind : TokenKind) (cs : List Char) : Option Lexeme :=
  match (kind.text?.getD "").toList.isPrefixOf? cs with
  | some rest => if (rest.head?.map isNamePart).getD false then none else some { kind, rest }
  | none => none

/-- A sign, or one character that starts no token. -/
def sign (cs : List Char) : Lexeme :=
  ((negated .notIsKeyword cs).or ((negated .notInKeyword cs).or (signAmong signs cs))).getD
    { kind := .unknown, rest := cs.tail }

/-- The token at the front of a text that starts with no trivia. -/
def lexeme : List Char → Lexeme
  | [] => { kind := .endOfFile, rest := [] }
  | c :: cs =>
    let ofLiteral (kind : TokenKind) (l : TokenFlags × List Char) : Lexeme :=
      { kind, flags := l.1, rest := l.2 }
    if c = '"' then ofLiteral .stringLiteral (Literal.string (c :: cs))
    else if c = '\x27' then ofLiteral .characterLiteral (Literal.character (c :: cs))
    else if c = '`' then ofLiteral .identifier (Literal.backticked (c :: cs))
    else if c.isDigit then ofLiteral .numericLiteral (Literal.number (c :: cs))
    else if c = '.' ∧ (cs.head?.map Char.isDigit).getD false then
      ofLiteral .numericLiteral (Literal.number (c :: cs))
    else if isNameStart c then word (c :: cs)
    else sign (c :: cs)

/-- The part of a text before what is left of it. -/
def before (cs rest : List Char) : List Char := cs.take (cs.length - rest.length)

/-- The first token of the text from byte `start` on, and the text after the token. -/
def scan (start : Nat) (cs : List Char) : Token × List Char :=
  let body := Trivia.skip cs
  let lexeme := lexeme body
  ({ kind := lexeme.kind
     flags := lexeme.flags
     leading := String.ofList (before cs body)
     text := String.ofList (before body lexeme.rest)
     start }, lexeme.rest)

/-- The tokens of a text through the end of the file, at most `count` before that. -/
def scanUpTo : Nat → Nat → List Char → List Token
  | 0, start, cs => [(scan start cs).1]
  | count + 1, start, cs =>
    let (token, rest) := scan start cs
    if token.isEnd then [token] else token :: scanUpTo count token.stop rest

/-- The tokens of a source, the last being the end of the file. Each but that has a character of
its own, so there are no more than characters. -/
def ofSource (source : String) : List Token :=
  scanUpTo source.toList.length 0 source.toList

end Token

end KotlinTree
