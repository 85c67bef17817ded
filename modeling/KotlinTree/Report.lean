import KotlinTree.Attribution.Unit
import KotlinTree.LineMap
import KotlinTree.Text.Parts

/-!
Reports for readers: diagnostics with the line they speak of, and lists of accesses.
-/

namespace KotlinTree

/-- Parts of a report that stand out. -/
inductive Style where
  | error | warning | code | underline
  deriving DecidableEq, Repr

/-- The terminal's codes for a style. -/
def Style.codes : Style → String
  | .error => "1;31"
  | .warning => "1;33"
  | .code => "2"
  | .underline => "31"

def Style.apply (style : Style) (text : String) : String :=
  "\x1b[" ++ style.codes ++ "m" ++ text ++ "\x1b[0m"

/-- What reports are made with. -/
structure Reporter where
  isColored : Bool := false
  /-- Texts of files by name; a later text of a file replaces an earlier one. -/
  sources : List (String × String) := []

namespace Reporter

open Attribution

def paint (r : Reporter) (style : Style) (text : String) : String :=
  if r.isColored then style.apply text else text

def source? (r : Reporter) (file : String) : Option String := r.sources.reverse.lookup file

/-- The line and column of a place in a file that is known. -/
def position? (r : Reporter) (file : String) (place : Nat) : Option Position :=
  (r.source? file).map fun text => (LineMap.ofSource text).position place

/-- A place with its line and column, both from one. -/
def positionText (p : Position) : String := Nat.repr (p.line + 1) ++ ":" ++ Nat.repr (p.character + 1)

def categoryText (r : Reporter) : Category → String
  | .error => r.paint .error "error"
  | .warning => r.paint .warning "warning"
  | .suggestion => "suggestion"
  | .message => "message"

/-- Blanks under the characters before a column, and marks under those from there on for `length`
bytes; `place` is the offset of the first character. -/
def marks (column length : Nat) : Nat → List Char → List Char
  | _, [] => []
  | place, c :: cs =>
    if place < column then
      (if c = '\t' then [' ', ' ', ' ', ' '] else [' ']) ++ marks column length (place + c.utf8Size) cs
    else if place < column + length then '~' :: marks column length (place + c.utf8Size) cs
    else []

/-- The marks under a line, at least one. -/
def underline (line : String) (column length : Nat) : String :=
  let marks := marks column length 0 line.toList
  String.ofList (if marks.contains '~' then marks else marks ++ ['~'])

/-- A number on the right of a field. -/
def rightAligned (width n : Nat) : String :=
  let digits := Nat.repr n
  String.ofList (List.replicate (width - digits.toList.length) ' ') ++ digits

/-- The line that a diagnostic speaks of, with marks under what it is about. -/
def snippet? (r : Reporter) (d : Diagnostic) : Option String := do
  if d.length = 0 then none
  else
    let text ← r.source? d.file
    let position ← r.position? d.file d.start
    let line ← (Text.lines text)[position.line]?
    let marks := r.paint .underline (underline line position.character d.length)
    return "\n  " ++ rightAligned 3 (position.line + 1) ++ "   " ++ line ++ "\n        " ++ marks

/-- A diagnostic with its place and its line, as far as its file is known. -/
def renderDiagnostic (r : Reporter) (d : Diagnostic) : String :=
  let place := match r.position? d.file d.start with
    | some position => d.file ++ ":" ++ positionText position
    | none => d.file
  place ++ " - " ++ r.categoryText d.category ++ " " ++ r.paint .code d.codeText ++ ": " ++
    d.message ++ (r.snippet? d).getD ""

/-- Diagnostics one after another. -/
def render (r : Reporter) (diagnostics : List Diagnostic) : String :=
  "\n".intercalate (diagnostics.map r.renderDiagnostic)

/-- Where the name of an access starts. -/
def namePlace (u : AttributedUnit) (access : NameUse) : Nat :=
  match u.forest.data (some access.node) with
  | .access data => (u.forest.span data.name).start
  | _ => (u.forest.span (some access.node)).start

/-- An access with its type and its owner. -/
def accessText (position : Position) (access : NameUse) : String :=
  positionText position ++ " " ++ access.name ++ " : " ++ access.type.render ++ " owner=" ++
    access.target.owner.getD "<none>" ++ (if access.isPlatform then " [platform]" else "") ++
    if access.target.isSynthetic then " [synthetic]" else ""

/-- All accesses of a file, one a line. -/
def accessLines (r : Reporter) (u : AttributedUnit) : List String :=
  u.accesses.map fun access =>
    let place := namePlace u access
    accessText ((r.position? u.fileName place).getD ⟨0, place⟩) access

end Reporter

end KotlinTree
