import KotlinTree.Document
import KotlinTree.Text.Parts

/-!
Paths of files as they are written, with slashes between their parts, the files that can be read by them,
and the settings of a project.
-/

namespace KotlinTree.Path

/-- The path does not start at the root. -/
def isRelative (path : String) : Bool := path.toList.head? ≠ some '/'

/-- A path inside a directory, whose name may be empty; a path from the root stays as it is. -/
def inside (directory path : String) : String :=
  if !isRelative path || directory = "" then path
  else if directory.toList.getLast? = some '/' then directory ++ path
  else directory ++ "/" ++ path

/-- Drops what adds nothing to the end of a path: slashes, and parts that stay where they are. The
path is reversed. -/
def trimEnd : List Char → List Char
  | '/' :: '.' :: '/' :: rest => trimEnd ('/' :: rest)
  | '.' :: '/' :: c :: rest => trimEnd ('/' :: c :: rest)
  | '/' :: c :: rest => trimEnd (c :: rest)
  | path => path

/-- The directory of a file. A name alone is in the directory with the empty name, and the root is
in none. -/
def directory? (path : String) : Option String :=
  match trimEnd path.toList.reverse with
  | [] | ['/'] => none
  | reversed =>
    match reversed.dropWhile (· ≠ '/') with
    | [] => some ""
    | front => some (String.ofList (trimEnd front).reverse)

end KotlinTree.Path

namespace KotlinTree

/-- Texts of files by their paths, as far as they can be read. -/
abbrev Files := String → Option String

/-- Directories and files by their places: the names from where paths start down to them. -/
structure FileTree where
  directories : List (List String) := []
  files : List (List String × String) := []

namespace FileTree

/-- The directory that paths start from is always there. -/
def isDirectory (t : FileTree) (place : List String) : Bool :=
  place.isEmpty || t.directories.contains place

/-- Where a part of a path leads from a directory. Nothing is above where paths start. -/
def step? (directory : List String) (part : String) : Option (List String) :=
  if part = "" ∨ part = "." then some directory
  else if part = ".." then if directory = [] then none else some directory.dropLast
  else some (directory ++ [part])

/-- The places that the parts of a path lead through, the last one first. -/
def route? (parts : List String) : Option (List (List String)) :=
  parts.foldlM (fun route part => (step? (route.headD []) part).map (· :: route)) [[]]

/-- The tree with one more file and with the directories on the way to it. A file at the same place
is replaced. -/
def write (t : FileTree) (path text : String) : FileTree :=
  match route? (Text.parts (· = '/') path) with
  | some (place :: way) =>
    { directories := way ++ t.directories, files := (place, text) :: t.files }
  | _ => t

/-- Follows the parts of a path from a directory to a file. -/
def follow? (t : FileTree) : List String → List String → Option String
  | _, [] => none
  | directory, part :: rest =>
    match step? directory part with
    | none => none
    | some place =>
      if t.isDirectory place then t.follow? place rest
      else if rest.isEmpty then t.files.lookup place
      else none

/-- The text of a file in the tree. -/
def read? (t : FileTree) : Files := fun path =>
  if Path.isRelative path then t.follow? [] (Text.parts (· = '/') path) else none

end FileTree

/-- Files with given paths and texts, written one after another, and no others. -/
def Files.ofList (entries : List (String × String)) : Files :=
  (entries.foldl (fun t (path, text) => t.write path text) ({} : FileTree)).read?

/-- The files of a project and how to attribute them. -/
structure ProjectConfig where
  sources : List String := []
  /-- Stubs that declare compiled classes and files. -/
  classpath : List String := []
  /-- Packages that are imported everywhere. -/
  defaultImports : List String := []
  /-- How many files to attribute at a time; zero leaves it open. -/
  threads : Nat := 0
  /-- Files whose tree does not print as they are written are to be told. -/
  checkRoundTrip : Bool := false
  deriving DecidableEq, Repr, Inhabited

namespace ProjectConfig

open Document

def ofDocument? (document : Document) : Option ProjectConfig := do
  let fields ← record?
    ["sources", "classpath", "defaultImports", "threads", "checkRoundTrip"] document
  return {
    sources := ← optional? fields "sources" (list? string?) []
    classpath := ← optional? fields "classpath" (list? string?) []
    defaultImports := ← optional? fields "defaultImports" (list? string?) []
    threads := ← optional? fields "threads" word64? 0
    checkRoundTrip := ← optional? fields "checkRoundTrip" bool? false }

/-- Reads the settings from their text. -/
def parse? (text : String) : Option ProjectConfig := (Document.parse? text).bind ofDocument?

/-- The settings with paths that are read from a directory. -/
def inDirectory (config : ProjectConfig) (directory : String) : ProjectConfig :=
  { config with
    sources := config.sources.map (Path.inside directory)
    classpath := config.classpath.map (Path.inside directory) }

end ProjectConfig

end KotlinTree
