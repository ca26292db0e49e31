import NPlusOne.LoopWalk
import NPlusOne.Progress
import NPlusOne.Project
import NPlusOne.Report
import NPlusOne.Settings
import NPlusOne.TypeLookup
import NPlusOne.WorkerPool

namespace NPlusOne

structure Stats where
  files : Nat := 0
  loops : Nat := 0
  reports : Nat := 0
  suppressed : Nat := 0
  errors : Nat := 0
  deriving DecidableEq, Repr

/-- What analyses keep: the state of the search, the source lines that were read and the counts.
Units and lines outlive a run, all else is made anew. -/
structure AnalysisState where
  search : WalkState ProjectState := { project := {} }
  lines : SourceLines := []
  stats : Stats := {}
  progress : Progress := { total := 0 }

instance : HasLog AnalysisState where
  append entry s := { s with search := HasLog.append entry s.search }

/-- Counts a file that is done; every so often a line in the log tells the progress. -/
def AnalysisState.advance (path : String) (loops : Nat) (s : AnalysisState) : AnalysisState :=
  let (progress, line) := s.progress.update path loops
  let s := { s with progress }
  match line with
  | some text => HasLog.append ⟨.info, .command, text⟩ s
  | none => s

structure Analyzer where
  settings : Settings
  program : Program
  options : CompilerOptions
  schedule : Nat → List Turn := Turn.slices

namespace Analyzer

def inSearch {α : Type} (task : Task (WalkState ProjectState) α) : Task AnalysisState α :=
  Task.within AnalysisState.search (fun w s => { s with search := w }) task

def inProject {α : Type} (task : Task ProjectState α) : Task AnalysisState α :=
  inSearch (Task.within WalkState.project (fun p s => { s with project := p }) task)

def inCache {α : Type} (task : Task UnitCache α) : Task AnalysisState α :=
  inProject (Task.within ProjectState.cache (fun c s => { s with cache := c }) task
    ProjectState.isPart_cache)

def count (f : Stats → Stats) : Task AnalysisState Unit :=
  modify fun s => { s with stats := f s.stats }

def start (settings : Settings) (program : Program) : Task AnalysisState Analyzer := do
  let includePaths ← Task.ofExcept (settings.value .includePaths)
  let arguments ← Task.ofExcept (settings.value .compilerArgs)
  let options ← inCache (FrontEnd.start { includePaths, arguments, standard := settings.standard })
  return { settings, program, options }

def frontEnd (a : Analyzer) (files : FileTree) : FrontEnd :=
  ⟨a.program, files, a.options⟩

/-- Forgets the last run, but not the units and the lines. -/
def reset : Task AnalysisState Unit :=
  modify fun s => { s with
    stats := {}
    search := { project := { cache := s.search.project.cache } } }

/-- The project's files: the configured ones, or all below the targets' directories; and the
targets in any case. -/
def projectFiles (files : FileTree) (configured targets : List String) :
    Except Failure (List String) := do
  let known ← if configured.isEmpty
    then do
      let dirs := sortUnique (targets.map Path.directory)
      pure (← dirs.mapM files.sourceFiles).flatten
    else pure configured
  return sortUnique ((known ++ targets).map files.absolute)

def unitOf (a : Analyzer) (files : FileTree) (path : String) :
    Task AnalysisState (Except ParseError TranslationUnit) := do
  let loaded ← catchParse (inCache ((a.frontEnd files).load path false))
  return loaded.map (·.unit)

/-- Parses the targets; those that do not parse are counted as errors and left out. -/
def parseTargets (a : Analyzer) (files : FileTree) :
    List String → Task AnalysisState (List (String × TranslationUnit))
  | [] => return []
  | path :: rest => do
    match ← a.unitOf files path with
    | .error e =>
      Log.write .error .command s!"Skipping {path}: {e.message}"
      count fun n => { n with errors := n.errors + 1 }
      a.parseTargets files rest
    | .ok unit => return (path, unit) :: (← a.parseTargets files rest)

/-- The units of the project's other files, as far as they parse. -/
def parseOthers (a : Analyzer) (files : FileTree) :
    List String → Task AnalysisState (List TranslationUnit)
  | [] => return []
  | path :: rest => do
    match ← a.unitOf files path with
    | .error e =>
      Log.write .warning .command s!"Skipping {path} for type lookup: {e.message}"
      a.parseOthers files rest
    | .ok unit => return unit :: (← a.parseOthers files rest)

def checkLoops (search : LoopSearch ProjectState) (unit : TranslationUnit) :
    List Node → Task (WalkState ProjectState) Unit
  | [] => return ()
  | loop :: rest => do
    let _ ← search.checkLoop ⟨unit, loop⟩
    checkLoops search unit rest

/-- Checks the loops of a file and gives their number. A failure on the way is counted, ends this
file only and takes the place of the number. -/
def analyzeFile (search : LoopSearch ProjectState) (path : String) (unit : TranslationUnit) :
    Task AnalysisState (Except Failure Nat) := do
  let loops ← Task.ofExcept (unit.loops path)
  Log.write .debug .command s!"{path}: {loops.length} loops"
  match ← Task.attempt (inSearch (checkLoops search unit loops)) with
  | .error e =>
    Log.write .error .command s!"Error analyzing {path}: {e.message}"
    count fun n => { n with errors := n.errors + 1 }
    return .error e
  | .ok () =>
    count fun n => { n with loops := n.loops + loops.length }
    return .ok loops.length

def analyzeTarget (search : LoopSearch ProjectState) (path : String) (unit : TranslationUnit) :
    Task AnalysisState (Except Failure Nat) := do
  let outcome ← analyzeFile search path unit
  modify (·.advance path (outcome.toOption.getD 0))
  return outcome

def moreWorkers (jobs : Value) (n : Int) : Except Failure Bool :=
  match jobs with
  | .int m => .ok (n < m)
  | .bool b => .ok (n < if b then 1 else 0)
  | .float x => .ok (x.exceeds n)
  | _ => .error .wrongKind

/-- Analyses the targets, one after the other or by several workers. -/
def analyzeTargets (a : Analyzer) (search : LoopSearch ProjectState)
    (units : List (String × TranslationUnit)) :
    Task AnalysisState (List (Except Failure Nat)) := do
  modify fun s => { s with progress := { total := units.length } }
  let jobs := units.map fun (path, unit) => analyzeTarget search path unit
  if ← Task.ofExcept (moreWorkers a.settings.jobs 1) then
    Task.pooled (fun busy => (moreWorkers a.settings.jobs busy).toOption.getD false)
      (a.schedule jobs.length) jobs
  else Task.inTurn jobs

/-- The lines of a source file, read at the first question; an unreadable file has none. -/
def sourceLines (files : FileTree) (path : String) : Task AnalysisState (List String) := do
  match (← get).lines.lookup path with
  | some lines => return lines
  | none =>
    let lines ← match Suppression.readLines files path with
      | .ok lines => pure lines
      | .error (.path e) =>
        let quoted := Text.quote path
        Log.write .warning .command s!"Failed to read {path}: {e.describe}: {quoted}"
        pure []
      | .error e => throw e
    modify fun s => { s with lines := (path, lines) :: s.lines }
    return lines

def dropMarked (files : FileTree) (marker : Value) : List Report → Task AnalysisState (List Report)
  | [] => return []
  | r :: rest => do
    let line := Suppression.lineAt (← sourceLines files r.location.file) r.location.line
    if ← Task.ofExcept (Suppression.isMarked marker line) then
      count fun n => { n with suppressed := n.suppressed + 1 }
      dropMarked files marker rest
    else return r :: (← dropMarked files marker rest)

/-- An empty marker suppresses nothing. -/
def suppress (a : Analyzer) (files : FileTree) (reports : List Report) :
    Task AnalysisState (List Report) :=
  if a.settings.suppressionMarker.isTruthy
  then dropMarked files a.settings.suppressionMarker reports
  else return reports

def tellProgress : Task AnalysisState Unit := do
  Log.write .info .command ((← get).progress.summary .zero)

def logStats : Task AnalysisState Unit := do
  let stats := (← get).stats
  let rule := String.ofList (List.replicate 50 '=')
  for line in [rule, "Analysis Statistics:",
      s!"  Files analyzed: {stats.files}",
      s!"  Loops checked: {stats.loops}",
      s!"  Reports: {stats.reports}",
      s!"  Suppressed: {stats.suppressed}",
      s!"  Errors: {stats.errors}", rule] do
    Log.write .info .command line

def registry (a : Analyzer) (units : List TranslationUnit) : Task AnalysisState Registry := do
  let extra ← Task.ofExcept a.settings.extraQueryTypes
  Registry.build (TypeLookup.lookup units) (Registry.defaultPairs ++ extra)

def searchTargets (a : Analyzer) (files : FileTree) (registry : Registry)
    (project targets : List String) (units : List (String × TranslationUnit)) :
    Task AnalysisState (List Report) := do
  let configured ← Task.ofExcept (a.settings.projectRoots files)
  let roots := sortUnique (configured ++ targets.map Path.directory)
  let resolver : Resolver := ⟨a.frontEnd files, .make files project (some roots)⟩
  let search : LoopSearch ProjectState :=
    { registry, resolve := resolver.resolve, announce := true, bound := a.program.nodeCount + 1 }
  let _ ← a.analyzeTargets search units
  tellProgress
  let kept ← a.suppress files (← get).search.reports
  count fun n => { n with reports := kept.length }
  logStats
  return Report.sort kept

/-- The paths that are to be analysed; without a value, all configured source files. -/
def targetPaths (configured : List String) : Value → Except Failure (List String)
  | .null => .ok configured
  | v => do (← v.parts).mapM Value.asText

def run (a : Analyzer) (files : FileTree) (targets : Value) : Task AnalysisState (List Report) := do
  reset
  let configured ← a.settings.allSourceFiles files
  let paths ← Task.ofExcept (targetPaths configured targets)
  let targets := sortUnique (paths.map files.absolute)
  let project ← Task.ofExcept (projectFiles files configured targets)
  Log.write .info .command
    s!"Analysis started: {targets.length} files ({project.length} project files)"
  let units ← a.parseTargets files targets
  count fun n => { n with files := units.length }
  let others ← a.parseOthers files (project.filter fun path => (units.lookup path).isNone)
  let registry ← a.registry (units.map Prod.snd ++ others)
  if registry.isEmpty then
    Log.write .info .command "No known database library is used; nothing to analyze"
    return []
  a.searchTargets files registry project targets units

end Analyzer

end NPlusOne
