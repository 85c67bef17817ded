import KotlinTree.Attribution.Unit
import KotlinTree.Project.Files
import KotlinTree.Types.Stub

/-!
Runs over whole projects: files are parsed, bound together, and attributed. A run yields every file
in order, or one reason why not. Files are taken one after another here: that they can be shared out among
threads changes nothing in what a run yields, and only that the threads can be had is looked at.
-/

namespace KotlinTree

/-- Reasons why a run yields nothing. -/
inductive RunError where
  | unreadableConfig (path : String)
  | malformedConfig (path : String)
  | unreadableSource (path : String)
  | classpath (path : String) (cause : EnvironmentError)
  | binding (cause : EnvironmentError)
  | incomplete (cause : EnvironmentError)
  | attribution (cause : AttributionError)
  deriving DecidableEq, Repr

/-- What was being done when an error arose, where its own message does not say. -/
def RunError.context? : RunError → Option String
  | .unreadableSource path => some ("failed to read " ++ path)
  | .classpath path _ => some ("failed to load classpath entry " ++ path)
  | .binding _ => some "failed to bind declarations"
  | .incomplete _ => some "failed to freeze the type environment"
  | .unreadableConfig _ | .malformedConfig _ | .attribution _ => none

/-- What happened, with what was being done. -/
def RunError.message (e : RunError) : String :=
  let cause := match e with
    | .unreadableConfig path => "failed to read config " ++ path
    | .malformedConfig path => "invalid config " ++ path
    | .unreadableSource _ => "the file is not there or is no text"
    | .classpath _ cause | .binding cause | .incomplete cause => cause.message
    | .attribution cause => cause.message
  match e.context? with
  | some context => context ++ ": " ++ cause
  | none => cause

/-- Reasons why files are not attributed: there are no threads to do it on, or the run fails. -/
inductive ThreadedError where
  | threadPool (cause : String)
  | run (cause : RunError)
  deriving DecidableEq, Repr

/-- What happened, with what was being done. -/
def ThreadedError.message : ThreadedError → String
  | .threadPool cause => "failed to build the attribution thread pool: " ++ cause
  | .run cause => cause.message

/-- Why no pool of so many threads can be made, if none can be. -/
abbrev ThreadPools := Nat → Option String

/-- A file's name and text. -/
structure SourceText where
  name : String
  text : String
  deriving DecidableEq, Repr, Inhabited

/-- How to attribute files. -/
structure RunOptions where
  /-- Paths of stubs. -/
  classpath : List String := []
  /-- Packages that are imported everywhere besides those of the language. -/
  extraImports : List String := []
  /-- How many threads there are to be; none stands for those that there are anyway. -/
  threads : Nat := 0
  checkRoundTrip : Bool := false
  deriving DecidableEq, Repr, Inhabited

namespace RunOptions

def ofConfig (config : ProjectConfig) : RunOptions :=
  { classpath := config.classpath, extraImports := config.defaultImports, threads := config.threads,
    checkRoundTrip := config.checkRoundTrip }

/-- Options with others on top of them: lists are added, the rest is replaced where it is given. -/
def override (options others : RunOptions) : RunOptions :=
  { classpath := options.classpath ++ others.classpath
    extraImports := options.extraImports ++ others.extraImports
    threads := if others.threads > 0 then others.threads else options.threads
    checkRoundTrip := options.checkRoundTrip || others.checkRoundTrip }

end RunOptions

/-- What a run yields, in the order of the files. -/
structure AttributionRun where
  units : List AttributedUnit
  /-- What the parser reports; the units hold what attribution does. -/
  parseDiagnostics : List Diagnostic
  /-- Names of files whose tree does not print as they are written. -/
  roundTripFailures : List String

/-- All diagnostics of a run. -/
def AttributionRun.diagnostics (run : AttributionRun) : List Diagnostic :=
  run.parseDiagnostics ++ run.units.flatMap AttributedUnit.diagnostics

/-- Packages that are imported everywhere: those of the language, then others, each once. -/
def allDefaultImports (extra : List String) : List String :=
  extra.foldl (fun all package => if all.contains package then all else all ++ [package])
    Builtins.defaultImports

/-- Declares what the stub at a path holds. -/
def loadStub (files : Files) (env : Environment) (path : String) : Except RunError Environment :=
  match files path with
  | none => .error (.classpath path (.unreadable path))
  | some text =>
    match env.addStubText path text with
    | (env, none) => .ok env
    | (_, some cause) => .error (.classpath path cause)

/-- Names of the files whose tree does not print as they are written. -/
def roundTripFailures (units : List AttributedUnit) (sources : List SourceText) : List String :=
  (units.zip sources).filterMap fun (u, source) =>
    if u.print = source.text then none else some u.fileName

/-- Attributes files together, on whatever threads; `stops n` says whether to stop when asked for the
`n`-th time. -/
def attributeSources (files : Files) (sources : List SourceText) (options : RunOptions)
    (stops : Nat → Bool := fun _ => false) : Except RunError AttributionRun := do
  let parsed := sources.map fun source => ParsedUnit.ofSource source.name source.text
  let env ← options.classpath.foldlM (loadStub files) Builtins.environment
  let imports := allDefaultImports options.extraImports
  -- Everything is bound before anything is attributed, so that each file sees what all declare.
  let (env, bound) ← (bindUnits env parsed imports).mapError .binding
  -- From here on, nothing is declared any more.
  let env ← env.freeze.mapError .incomplete
  let units ← (attributeUnits env parsed bound stops).mapM (·.mapError .attribution)
  return {
    units
    parseDiagnostics := parsed.flatMap fun u => u.diagnostics.toList
    roundTripFailures := if options.checkRoundTrip then roundTripFailures units sources else [] }

namespace ThreadPools

/-- Pools of any size can be made. -/
def unlimited : ThreadPools := fun _ => none

/-- Makes a pool of so many threads. -/
def make (pools : ThreadPools) (threads : Nat) : Except ThreadedError Unit :=
  match pools threads with
  | none => .ok ()
  | some cause => .error (.threadPool cause)

/-- Attributes files together, on a pool of its own if a number of threads is asked for. -/
def attributeSources (pools : ThreadPools) (files : Files) (sources : List SourceText)
    (options : RunOptions) (stops : Nat → Bool := fun _ => false) :
    Except ThreadedError AttributionRun := do
  -- The pool comes first: without one, nothing is parsed either.
  if 0 < options.threads then pools.make options.threads
  (KotlinTree.attributeSources files sources options stops).mapError .run

end ThreadPools

/-- Reads files in order. -/
def readSources (files : Files) (paths : List String) : Except RunError (List SourceText) :=
  paths.mapM fun path =>
    match files path with
    | some text => .ok ⟨path, text⟩
    | none => .error (.unreadableSource path)

/-- Reads the settings of a project; its paths are read from the directory of the settings. -/
def loadConfig (files : Files) (path : String) : Except RunError ProjectConfig :=
  match files path with
  | none => .error (.unreadableConfig path)
  | some text =>
    match ProjectConfig.parse? text with
    | none => .error (.malformedConfig path)
    | some config => .ok (((Path.directory? path).map config.inDirectory).getD config)

/-- The files of a project and how to attribute them: by its settings, with some options on top. -/
def loadProject (files : Files) (path : String) (overrides : RunOptions) :
    Except RunError (List SourceText × RunOptions) := do
  let config ← loadConfig files path
  let sources ← readSources files config.sources
  return (sources, (RunOptions.ofConfig config).override overrides)

/-- Attributes the files of a project, on whatever threads. -/
def attributeProject (files : Files) (path : String) (overrides : RunOptions) :
    Except RunError AttributionRun := do
  let (sources, options) ← loadProject files path overrides
  attributeSources files sources options

/-- Attributes the files of a project, on a pool of its own if a number of threads is asked for. -/
def ThreadPools.attributeProject (pools : ThreadPools) (files : Files) (path : String)
    (overrides : RunOptions) : Except ThreadedError AttributionRun := do
  let (sources, options) ← (loadProject files path overrides).mapError .run
  pools.attributeSources files sources options

end KotlinTree
