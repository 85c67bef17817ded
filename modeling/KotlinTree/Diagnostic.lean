/-!
Findings about a source file, with the wording of each.
-/

namespace KotlinTree

inductive Category where
  | warning | error | suggestion | message
  deriving DecidableEq, Repr, Inhabited

def Category.name : Category → String
  | .warning => "Warning"
  | .error => "Error"
  | .suggestion => "Suggestion"
  | .message => "Message"

/-- Kinds of finding. -/
inductive Finding where
  | unresolvedMember
  | unresolvedReference
  | unsupportedSuperMember
  | noEnclosingClass
  | unknownTypeReference
  | unparsedSource
  deriving DecidableEq, Repr

namespace Finding

def all : List Finding :=
  [.unresolvedMember, .unresolvedReference, .unsupportedSuperMember, .noEnclosingClass,
    .unknownTypeReference, .unparsedSource]

def code : Finding → Nat
  | .unresolvedMember => 1001
  | .unresolvedReference => 1002
  | .unsupportedSuperMember => 1003
  | .noEnclosingClass => 1004
  | .unknownTypeReference => 1005
  | .unparsedSource => 1006

def category : Finding → Category
  | .unparsedSource => .warning
  | _ => .error

/-- The wording, with a numbered hole for each argument. -/
def template : Finding → String
  | .unresolvedMember => "Unresolved member '\x7b0\x7d' on type '\x7b1\x7d'."
  | .unresolvedReference => "Unresolved reference '\x7b0\x7d'."
  | .unsupportedSuperMember => "Member '\x7b0\x7d' is not declared on superclass '\x7b1\x7d'."
  | .noEnclosingClass => "'\x7b0\x7d' is not allowed outside of a class."
  | .unknownTypeReference => "Unknown type '\x7b0\x7d'."
  | .unparsedSource => "Source could not be parsed and was kept verbatim."

def ofCode? (code : Nat) : Option Finding := all.find? fun finding => finding.code = code

end Finding

/-- A message about a stretch of a file. -/
structure Diagnostic where
  file : String
  start : Nat
  length : Nat
  message : String
  category : Category
  code : Nat
  deriving DecidableEq, Repr, Inhabited

namespace Diagnostic

/-- Puts `value` in place of each `hole` from left to right; `skipped` characters are still to
be passed over as part of the last hole. -/
def fillFrom (hole value : List Char) : Nat → List Char → List Char
  | _, [] => []
  | skipped + 1, _ :: text => fillFrom hole value skipped text
  | 0, c :: text =>
    if hole.isPrefixOf (c :: text) then value ++ fillFrom hole value (hole.length - 1) text
    else c :: fillFrom hole value 0 text

/-- The hole of the `i`-th argument. -/
def hole (i : Nat) : List Char := '\x7b' :: (Nat.repr i).toList ++ ['\x7d']

/-- Fills the holes of one argument after another, in text that earlier arguments brought too. -/
def fill (template : String) (arguments : List String) : String :=
  String.ofList <| arguments.zipIdx.foldl
    (fun text argument => fillFrom (hole argument.2) argument.1.toList 0 text) template.toList

/-- A diagnostic by its code. A code that is no finding's is an error that says its first
argument. -/
def ofCode (file : String) (start length code : Nat) (arguments : List String) : Diagnostic :=
  match Finding.ofCode? code with
  | some finding =>
    ⟨file, start, length, fill finding.template arguments, finding.category, code⟩
  | none => ⟨file, start, length, fill "\x7b0\x7d" arguments, .error, code⟩

def ofFinding (file : String) (span : Nat × Nat) (finding : Finding) (arguments : List String) :
    Diagnostic :=
  ofCode file span.1 span.2 finding.code arguments

/-- The code as it is shown. -/
def codeText (d : Diagnostic) : String := "KT" ++ Nat.repr d.code

end Diagnostic

end KotlinTree
