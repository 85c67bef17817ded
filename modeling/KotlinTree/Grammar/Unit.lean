import KotlinTree.Grammar.Expression

/-!
Statements, whole source files, and the recursion of the grammar. A production that takes no token yields
no node, so a nesting bound that covers every token is never felt.
-/

namespace KotlinTree.Grammar

/-- A declaration starts here. A function or object without a name is an expression. -/
def isAtDeclaration : Parser Bool := do
  match ← kind with
  | .classKeyword | .interfaceKeyword | .valKeyword | .varKeyword | .atSign => return true
  -- Before a parenthesis, a function has no name, and is a value.
  | .funKeyword => return (← peek) ≠ .openParen
  | .objectKeyword => return (← peek).isName
  | _ => isAtModifier

/-- An expression, and the value that is assigned to it on its line. -/
def assignmentOrExpression (rec : Productions) : Parser (Option NodeId) := do
  let start ← place
  match ← rec .expression with
  | none => return none
  | some target =>
    let operator ← kind
    -- On the next line, the operator would begin another statement.
    if !operator.isAssignmentOperator || (← startsLine) then return some target
    else
      let token ← bump
      let value ← rec .expression
      return some (← node .assignment start (among [some target, some token, value])
        (.assignment { target, operator, value }))

def statement (rec : Productions) : Parser (Option NodeId) := do
  if ← isAtDeclaration then rec .declaration else assignmentOrExpression rec

end KotlinTree.Grammar

namespace KotlinTree

namespace Grammar

/-- One production, given those that it recurs through. -/
def production (rec : Productions) : Productions
  | .expression => expression rec
  | .binary minPrecedence => binary rec minPrecedence
  | .prefixed => prefixed rec
  | .typeReference limit => typeReference rec limit
  | .statement => statement rec
  | .declaration => declaration rec

/-- The productions, nested at most `n` deep. -/
def productions : Nat → Productions
  -- The bound is on nesting, so it is not reached if it is large enough.
  | 0 => fun _ => return none
  | n + 1 => production (productions n)

/-- A nesting that no text of so many tokens reaches: a token is taken at least every sixth
level. -/
def nestingBound (tokens : Nat) : Nat := 6 * tokens + 6

/-- A package directive. -/
def packageDirective : Parser NodeId := do
  let start ← place
  let keyword ← bump
  let (name, _) ← nameChain none false
  let children := add #[keyword] name
  node .packageDirective start (add children (← eat .semicolon)) (.package name)

/-- The local name of an import, on its line. -/
def importName (children : Array NodeId) : Parser (Array NodeId × Option NodeId) := do
  -- The local name is on the line of the import.
  if (← isAt .asKeyword) && !(← startsLine) then
    let keyword ← bump
    let name ← bumpName
    return (add (children.push keyword) name, name)
  else return (children, none)

/-- An import of a name, or of all names in a package. -/
def importDirective : Parser NodeId := do
  let start ← place
  let keyword ← bump
  let (path, star) ← nameChain none true
  let (children, localName) ← importName (add #[keyword] path ++ star)
  node .importDirective start (add children (← eat .semicolon))
    (.importDirective { path, isStar := !star.isEmpty, localName })

/-- The children of a file so far, and which are imports and declarations. -/
structure FileParts where
  children : Array NodeId
  imports : Array NodeId := #[]
  declarations : Array NodeId := #[]

/-- One import, declaration or semicolon of a file. -/
def fileStep (rec : Productions) (parts : FileParts) : Parser (Step FileParts) := do
  match ← kind with
  | .endOfFile => return .done parts
  | .semicolon => return .more { parts with children := parts.children.push (← bump) }
  | .importKeyword =>
    let directive ← importDirective
    return .more { parts with
      children := parts.children.push directive, imports := parts.imports.push directive }
  | _ =>
    let declaration ← match ← rec .declaration with
      | some declaration => pure declaration
      | none => unknown
    return .more { parts with
      children := parts.children.push declaration
      declarations := parts.declarations.push declaration }

/-- A whole file: its package, then imports and declarations, then its end. -/
def sourceFile (rec : Productions) : Parser NodeId := do
  -- A package directive comes first or is none.
  let package ← if ← isAt .packageKeyword then some <$> packageDirective else pure none
  let parts ← repeating (fileStep rec) { children := add #[] package }
  let endOfFile ← bump
  node .sourceFile 0 (parts.children.push endOfFile) (.sourceFile
    { fileName := (← get).file, package, imports := parts.imports,
      declarations := parts.declarations, endOfFile })

end Grammar

/-- A source file with its tree. -/
structure ParsedUnit where
  fileName : String
  source : String
  forest : Forest
  root : NodeId
  diagnostics : Array Diagnostic

namespace ParsedUnit

def ofSource (fileName source : String) : ParsedUnit :=
  let start := Grammar.State.ofSource fileName source
  let bound := Grammar.nestingBound start.tokens.length
  -- Fuel covers every nesting that so many tokens can have.
  let (root, stop) := (Grammar.sourceFile (Grammar.productions bound)).run start
  { fileName, source, forest := stop.forest, root, diagnostics := stop.diagnostics }

/-- The text of the whole tree. -/
def print (u : ParsedUnit) : String := u.forest.print (some u.root)

end ParsedUnit

end KotlinTree
