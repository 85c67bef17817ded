import KotlinTree.Project.Run
import KotlinTree.Report

/-!
The command line: its arguments, and what is done by them. It reads files, attributes them, and writes what
has been found out. Help texts and the wording of what the system reports are left out.
-/

namespace KotlinTree

/-- What the command line asks for. -/
structure Arguments where
  files : List String := []
  config : Option String := none
  options : RunOptions := {}
  /-- A number of threads, in place of that of the settings. -/
  threads : Option Nat := none
  /-- All accesses are to be listed. -/
  isDump : Bool := false
  /-- Errors in files are to count as a failure. -/
  failOnError : Bool := false
  deriving DecidableEq, Repr, Inhabited

namespace Arguments

/-- Reads arguments one after another; after two dashes all are files. -/
def read (a : Arguments) : List String → Except String Arguments
  | [] => .ok a
  | "--" :: rest => .ok { a with files := a.files ++ rest }
  | "--dump" :: rest => read { a with isDump := true } rest
  | "--fail-on-error" :: rest => read { a with failOnError := true } rest
  | "--check-round-trip" :: rest =>
    read { a with options := { a.options with checkRoundTrip := true } } rest
  | "-p" :: path :: rest | "--config" :: path :: rest => read { a with config := some path } rest
  | "--classpath" :: path :: rest =>
    read { a with options := { a.options with classpath := a.options.classpath ++ [path] } } rest
  | "--default-import" :: package :: rest =>
    let extraImports := a.options.extraImports ++ [package]
    read { a with options := { a.options with extraImports } } rest
  | "--threads" :: count :: rest =>
    match count.toNat? with
    | some threads => read { a with threads := some threads } rest
    | none => .error ("invalid number of threads '" ++ count ++ "'")
  | argument :: rest =>
    if argument.startsWith "-" then .error ("unexpected argument '" ++ argument ++ "'")
    else read { a with files := a.files ++ [argument] } rest

end Arguments

/-- The exit code of a run: trees that do not print as they are written, then errors if they count,
then success. -/
def exitCode (failOnError : Bool) (run : AttributionRun) : UInt32 :=
  if !run.roundTripFailures.isEmpty then 2
  else if failOnError && run.diagnostics.any (·.category = .error) then 1
  else 0

end KotlinTree

namespace KotlinTree

/-- The text of a file, if it can be read. -/
def readText? (path : String) : IO (Option String) :=
  try return some (← IO.FS.readFile path) catch _ => return none

/-- The files at some paths that can be read. -/
def readAll (paths : List String) : IO Files := do
  let entries ← paths.mapM fun path => return (path, ← readText? path)
  return fun path => (entries.lookup path).join

/-- Writes what a run has found out: accesses if they are asked for, then all that is reported. -/
def writeRun (isDump : Bool) (sources : List SourceText) (run : AttributionRun) : IO Unit := do
  let err ← IO.getStderr
  let reporter : Reporter :=
    { isColored := ← err.isTty, sources := sources.map fun source => (source.name, source.text) }
  if isDump then
    for u in run.units do
      IO.println u.fileName
      for line in reporter.accessLines u do IO.println ("  " ++ line)
  if !run.diagnostics.isEmpty then err.putStrLn (reporter.render run.diagnostics)
  for file in run.roundTripFailures do
    err.putStrLn (file ++ ": printed tree differs from source")

/-- Says why there is nothing to show. -/
def failWith (message : String) : IO UInt32 := do
  IO.eprintln ("Error: " ++ message)
  return 1

/-- Attributes the files that the arguments and the settings name. -/
def runArguments (a : Arguments) : IO UInt32 := do
  let config : Except RunError ProjectConfig ← match a.config with
    | none => pure (.ok {})
    | some path => (loadConfig · path) <$> readAll [path]
  match config with
  | .error e => failWith e.message
  | .ok config =>
    let paths := config.sources ++ a.files
    if paths.isEmpty then failWith "no input files; pass files or a config with \"sources\""
    else
      let given := (RunOptions.ofConfig config).override a.options
      let options := { given with threads := a.threads.getD given.threads }
      let files ← readAll (paths ++ options.classpath)
      match readSources files paths with
      | .error e => failWith e.message
      | .ok sources =>
        match ThreadPools.unlimited.attributeSources files sources options with
        | .error e => failWith ("attribution failed: " ++ e.message)
        | .ok run =>
          writeRun a.isDump sources run
          return exitCode a.failOnError run

end KotlinTree

def main (args : List String) : IO UInt32 := do
  match KotlinTree.Arguments.read {} args with
  | .ok a => KotlinTree.runArguments a
  | .error message =>
    IO.eprintln ("error: " ++ message)
    return 2
