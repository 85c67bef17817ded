import KotlinTree.Span

/-!
Text between tokens: blanks, line comments and block comments. Block comments nest, and one that
is never closed runs to the end of the text.
-/

namespace KotlinTree.Trivia

/-- Blanks of the language: space, tab, carriage return, line feed and form feed. -/
def isBlank (c : Char) : Bool :=
  c = ' ' || c = '\t' || c = '\r' || c = '\n' || c = '\x0c'

/-- The characters that end a line. -/
def isLineEnd (c : Char) : Bool := c = '\n' || c = '\r'

/-- Where a place in trivia lies. -/
inductive Context where
  | blank
  | line
  | block (depth : Nat)
  deriving DecidableEq, Repr

/-- What is left of a text after the trivia at its front. -/
def skipFrom : Context → List Char → List Char
  | _, [] => []
  | .blank, c :: cs =>
    if isBlank c then skipFrom .blank cs
    else if c = '/' then
      match cs with
      | '/' :: rest => skipFrom .line rest
      | '*' :: rest => skipFrom (.block 1) rest
      -- A stroke that opens no comment begins a token.
      | _ => c :: cs
    else c :: cs
  | .line, c :: cs => if isLineEnd c then skipFrom .blank cs else skipFrom .line cs
  | .block depth, '/' :: '*' :: rest => skipFrom (.block (depth + 1)) rest
  | .block depth, '*' :: '/' :: rest =>
    if depth ≤ 1 then skipFrom .blank rest else skipFrom (.block (depth - 1)) rest
  | .block depth, _ :: cs => skipFrom (.block depth) cs

/-- The text after its leading trivia. -/
def skip (cs : List Char) : List Char := skipFrom .blank cs

/-- The place after the trivia at a place, which stays if it is no place of the text. -/
def skipAt (source : String) (place : Nat) : Nat :=
  match Text.dropBytes? source.toList place with
  | some rest => place + (Text.byteSize rest - Text.byteSize (skip rest))
  | none => place

/-- A comment inside a text. -/
structure Comment where
  span : Span
  isBlock : Bool
  deriving DecidableEq, Repr

/-- Comments of a text that starts at byte `place`; an open one began at byte `start`. -/
def commentsFrom (start place : Nat) : Context → List Char → List Comment
  | .blank, [] => []
  | .line, [] => [⟨⟨start, place⟩, false⟩]
  | .block _, [] => [⟨⟨start, place⟩, true⟩]
  | .blank, '/' :: '/' :: rest => commentsFrom place (place + 2) .line rest
  | .blank, '/' :: '*' :: rest => commentsFrom place (place + 2) (.block 1) rest
  | .blank, c :: cs => commentsFrom start (place + c.utf8Size) .blank cs
  | .line, c :: cs =>
    let next := place + c.utf8Size
    if isLineEnd c then ⟨⟨start, place⟩, false⟩ :: commentsFrom start next .blank cs
    else commentsFrom start next .line cs
  | .block depth, '/' :: '*' :: rest => commentsFrom start (place + 2) (.block (depth + 1)) rest
  | .block depth, '*' :: '/' :: rest =>
    if depth ≤ 1 then ⟨⟨start, place + 2⟩, true⟩ :: commentsFrom start (place + 2) .blank rest
    else commentsFrom start (place + 2) (.block (depth - 1)) rest
  | .block depth, c :: cs => commentsFrom start (place + c.utf8Size) (.block depth) cs

/-- The comments of a text in order; characters outside them are passed over. -/
def comments (text : String) : List Comment := commentsFrom 0 0 .blank text.toList

/-- A line end outside block comments; inside an open block comment of the given depth. -/
def hasLineBreakFrom : Nat → List Char → Bool
  | _, [] => false
  -- Line comments are not told apart here, so an opener inside one counts.
  | 0, '/' :: '*' :: rest => hasLineBreakFrom 1 rest
  | 0, c :: cs => isLineEnd c || hasLineBreakFrom 0 cs
  | depth + 1, '/' :: '*' :: rest => hasLineBreakFrom (depth + 2) rest
  | depth + 1, '*' :: '/' :: rest => hasLineBreakFrom depth rest
  | depth + 1, _ :: cs => hasLineBreakFrom (depth + 1) cs

/-- A line ends somewhere in the trivia outside its block comments. -/
def hasLineBreak (text : String) : Bool := hasLineBreakFrom 0 text.toList

/-- A block comment that documents: opened with two asterisks and not closed at once. -/
def Comment.isDocumentation (comment : Comment) (source : String) : Bool :=
  let text := (comment.span.text source).toList
  "/**".toList.isPrefixOf text && !"/**/".toList.isPrefixOf text

end KotlinTree.Trivia
