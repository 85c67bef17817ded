import KotlinTree.Diagnostic
import KotlinTree.Syntax.Forest
import KotlinTree.Token.Basic

/-!
Where a parse stands: the tokens ahead, the forest built so far, and the context that decides how
some tokens are read. A production reads tokens from the front and leaves nodes in the forest.
-/

namespace KotlinTree.Grammar

/-- Nesting of expressions and types past which source is kept as it is. -/
def maxDepth : Nat := 256

structure State where
  file : String
  /-- The token to be read next. -/
  current : Token
  /-- The tokens after the current one, the end of the file last. -/
  ahead : List Token
  forest : Forest := {}
  diagnostics : Array Diagnostic := #[]
  depth : Nat := 0
  /-- A brace opens a body here, not a lambda that is passed to a call. -/
  noTrailingLambda : Bool := false

abbrev Parser := StateM State

namespace State

def ofSource (file source : String) : State :=
  match Token.ofSource source with
  | token :: tokens => { file, current := token, ahead := tokens }
  | [] => { file, current := .endAt 0, ahead := [] }

/-- The next token becomes the current one; after the end of the file it comes again. -/
def advance (s : State) : State :=
  match s.ahead with
  | token :: tokens => { s with current := token, ahead := tokens }
  | [] => { s with current := .endAt s.current.stop }

/-- The tokens from the current one on. -/
def tokens (s : State) : List Token := s.current :: s.ahead

end State

def kind : Parser TokenKind := do return (← get).current.kind

def isAt (k : TokenKind) : Parser Bool := do return (← get).current.kind = k

/-- The place of the current token. -/
def place : Parser Nat := do return (← get).current.place

/-- The current token starts a line. -/
def startsLine : Parser Bool := do return (← get).current.startsLine

def isAtName : Parser Bool := do return (← get).current.kind.isName

def isAtText (text : String) : Parser Bool := do return (← get).current.text = text

/-- The kind of the token after the current one. -/
def peek : Parser TokenKind := do
  return ((← get).ahead.head?.map Token.kind).getD .endOfFile

/-- Makes the current token a leaf of a kind and goes on to the next. -/
def bumpAs (k : TokenKind) : Parser NodeId :=
  modifyGet fun s =>
    -- White space before the token goes with it.
    let t := s.current
    let (id, forest) := s.forest.addLeaf k ⟨t.place, t.stop⟩ t.leading t.text t.value
    (id, { s with forest }.advance)

/-- Makes the current token a leaf and goes on to the next. -/
def bump : Parser NodeId := do bumpAs (← kind)

/-- Takes a name as an identifier. -/
def bumpName : Parser (Option NodeId) := do
  if ← isAtName then return some (← bumpAs .identifier) else return none

/-- Takes a token of a kind if it is the current one. -/
def eat (k : TokenKind) : Parser (Option NodeId) := do
  if ← isAt k then return some (← bump) else return none

/-- Nodes with one more at the end, if there is one. -/
def add (nodes : Array NodeId) : Option NodeId → Array NodeId
  | some id => nodes.push id
  | none => nodes

/-- The nodes that are there, in order. -/
def among (nodes : List (Option NodeId)) : Array NodeId := (nodes.filterMap id).toArray

/-- A node over finished ones. -/
def node (k : NodeKind) (start : Nat) (children : Array NodeId) (data : NodeData := .plain) :
    Parser NodeId :=
  modifyGet fun s =>
    let (id, forest) := s.forest.addNode k start children data
    (id, { s with forest })

/-- Changes a node that has been made. -/
def change (id : NodeId) (f : Node → Node) : Parser Unit :=
  modify fun s => { s with forest := s.forest.modify id f }

/-- Runs a production with the given reading of braces, and restores the former one. -/
def withTrailingLambda {α : Type} (allowed : Bool) (p : Parser α) : Parser α := do
  -- What is restored is what was there, not what was set.
  let saved := (← get).noTrailingLambda
  modify fun s => { s with noTrailingLambda := !allowed }
  let result ← p
  modify fun s => { s with noTrailingLambda := saved }
  return result

/-- Whether a repetition goes on. -/
inductive Step (σ : Type) where
  | more (s : σ)
  | done (s : σ)

/-- Runs a step until it is done, at most `n` times. -/
def repeatUpTo {σ : Type} (step : σ → Parser (Step σ)) : Nat → σ → Parser σ
  | 0, s => pure s
  | n + 1, s => do
    match ← step s with
    | .more s => repeatUpTo step n s
    | .done s => pure s

/-- Runs a step until it is done. A step that goes on takes a token, so there are no more steps
than tokens. -/
def repeating {σ : Type} (step : σ → Parser (Step σ)) (s : σ) : Parser σ := do
  -- The last round takes no token, and the end of the file may be taken once.
  repeatUpTo step ((← get).ahead.length + 2) s

/-- Marks a node as kept source and reports it. -/
def recovered (id : NodeId) : Parser NodeId := do
  change id fun n => { n with isRecovered := true }
  modify fun s =>
    let span := s.forest.span (some id)
    { s with diagnostics :=
      s.diagnostics.push (.ofFinding s.file (span.start, span.size) .unparsedSource []) }
  return id

def isCloser : TokenKind → Bool
  | .closeBrace | .closeParen | .closeBracket => true
  | _ => false

def isOpener : TokenKind → Bool
  | .openBrace | .openParen | .openBracket => true
  | _ => false

/-- A token that goes on with the construct of the line before it. -/
def isContinuation (t : Token) : Bool :=
  t.kind = .elseKeyword || t.kind = .whileKeyword ||
    (t.kind = .identifier && (t.text = "catch" || t.text = "finally"))

/-- One token of kept source, inside `depth` brackets. -/
def unknownStep : Array NodeId × Nat → Parser (Step (Array NodeId × Nat))
  | (children, depth) => do
    let token := (← get).current
    -- The end of the file is left to the file.
    if token.isEnd then return .done (children, depth)
    else if !children.isEmpty && depth = 0 &&
        (isCloser token.kind || token.kind = .semicolon ||
          (token.startsLine && !isContinuation token)) then
      return .done (children, depth)
    -- A bracket that closes nothing is kept alone.
    else if children.isEmpty && isCloser token.kind then
      return .done (children.push (← bump), depth)
    else
      let depth := if isOpener token.kind then depth + 1
        -- No depth is less than none.
        else if isCloser token.kind then depth - 1 else depth
      return .more (children.push (← bump), depth)

/-- Keeps source that the grammar does not cover: at least one token, brackets balanced, up to a
token that starts a line outside them or a bracket that closes nothing. -/
def unknown : Parser NodeId := do
  let start ← place
  let (children, _) ← repeating unknownStep (#[], 0)
  recovered (← node .unknown start children)

/-- Keeps the current token alone. -/
def unknownToken : Parser NodeId := do
  let start ← place
  let token ← bump
  recovered (← node .unknown start #[token])

/-- Runs a production one level deeper, or keeps the source when it is too deep. -/
def nested (p : Parser (Option NodeId)) : Parser (Option NodeId) := do
  -- Source is kept as it is from here on, whatever it is.
  if (← get).depth ≥ maxDepth then return some (← unknown)
  else
    modify fun s => { s with depth := s.depth + 1 }
    let result ← p
    modify fun s => { s with depth := s.depth - 1 }
    return result

/-- The productions through which the grammar recurs. -/
inductive Nonterminal where
  | expression
  /-- Operands joined by operators that bind at least so tightly. -/
  | binary (minPrecedence : Nat)
  | prefixed
  /-- A type of at most so many names, if there is a limit. -/
  | typeReference (limit : Option Nat)
  | statement
  | declaration
  deriving DecidableEq, Repr

/-- How to parse each of them. A production that does not start here yields no node. -/
abbrev Productions := Nonterminal → Parser (Option NodeId)

end KotlinTree.Grammar
