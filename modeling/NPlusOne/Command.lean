import NPlusOne.Analysis
import NPlusOne.CommandLine
import NPlusOne.Log.Sink
import NPlusOne.Settings.File
import NPlusOne.Workbook

namespace NPlusOne

/-- What the command finds around it: the parsed program, the level of the log if it is given from
outside, the text on standard input, and the time. -/
structure Surroundings where
  program : Program
  level : Option String := none
  input : String := ""
  now : Moment

/-- What the command has done: the files, the parser calls, the lines for standard output and for
standard error, and the log. -/
structure Session where
  files : FileTree
  calls : List ParserCall := []
  output : List String := []
  complaints : List String := []
  /-- Where the log is shown, and how long it was when that began. -/
  sink : Option (Log.Sink × Nat) := none
  log : Log := #[]

instance : HasLog Session where
  append entry s := { s with log := s.log.push entry }

/-- How the command ends, unless it fails. -/
inductive Ending where
  | done (code : Nat)
  | stopped (stop : CommandLine.Stop)
  deriving DecidableEq, Repr

def Session.threshold (s : Session) : Int :=
  match s.sink with
  | some (sink, _) => sink.threshold
  | none => Log.silentThreshold

/-- What the terminal shows of the log. Before the log is opened, warnings and worse show their bare
texts. -/
def Session.terminalLog (s : Session) (time : String) : String :=
  let start := match s.sink with
    | some (_, start) => start
    | none => s.log.size
  let early := (s.log.toList.take start).filter fun e =>
    decide (Log.silentThreshold ≤ e.level.weight)
  let later := match s.sink with
    | some (sink, _) => sink.text time ((s.log.toList.drop start).map Log.Entry.toRecord)
    | none => ""
  String.join (early.map fun e => e.text ++ "\n") ++ later

namespace Command

def inWorkspace {α : Type} (task : Task Workspace α) : Task Session α :=
  Task.within (fun s => { files := s.files, log := s.log })
    (fun w s => { s with files := w.files, log := w.log }) task

def inAnalysis {α : Type} (task : Task AnalysisState α) : Task Session α :=
  Task.apart (fun s => { search := { project := { cache := { log := s.log } } } })
    (fun a s => { s with log := a.search.project.cache.log, calls := a.search.project.cache.calls })
    task

def print (line : String) : Task Session Unit :=
  modify fun s => { s with output := s.output ++ [line] }

def complain (line : String) : Task Session Unit :=
  modify fun s => { s with complaints := s.complaints ++ [line] }

def openLog (level file : Value) : Task Session Unit := do
  let sink ← inWorkspace (Log.Sink.make level file .null)
  modify fun s => { s with sink := some (sink, s.log.size) }

def given : Given String → Option String
  | .value text => if text = "" then none else some text
  | _ => none

def initConfig (input directory output : String) (verbose : Bool) : Task Session Nat := do
  openLog (.text (if verbose then "DEBUG" else "INFO")) .null
  if !(← Task.ofExcept ((← get).files.isDirectory (Path.tidy directory))) then
    complain s!"Error: ディレクトリではありません: {directory}"
    return 2
  let s ← inWorkspace (Settings.ofCmake input (Path.tidy directory) (some output))
  let count (v : Value) : Task Session Nat := Task.ofExcept v.size
  print s!"設定ファイルを生成しました: {output}"
  print s!"  ソースファイル: {← count s.sourceFiles}"
  print s!"  ソースディレクトリ: {← count s.sourceDirectories}"
  print s!"  インクルードパス: {← count s.includePaths}"
  print s!"  コンパイラ引数: {← count s.compilerArgs}"
  return 0

def override (line : CommandLine) (s : Settings) : Except Failure Settings := do
  let includes ← (← s.value .includePaths).parts
  let added := line.includes.map fun dir =>
    match dir with
    | some path => .text path
    | none => .list []
  let s := s.restore .includePaths (.list (includes ++ added))
  let s := match given line.standard with
    | some name => { s with standard := .text name }
    | none => s
  let s := match line.jobs with
    | .value n => if n = 0 then s else { s with jobs := .int n }
    | _ => s
  let s := match given line.excel with
    | some path => { s with excelOutput := .text path }
    | none => s
  return if line.verbose then { s with logLevel := .text "DEBUG" } else s

def missingFiles (files : FileTree) (paths : List String) : Except Failure (List String) := do
  let missing ← paths.filterM fun path => do return !(← files.isPresent (Path.tidy path))
  return missing.map fun path => "入力ファイルが見つかりません: " ++ path

/-- Analyses the targets. The failure of an analysis is told and ends the command. -/
def analyze (around : Surroundings) (s : Settings) (targets : Value) :
    Task Session (Option (List Report)) := do
  let files := (← get).files
  let task : Task AnalysisState (List Report) := do
    (← Analyzer.start s around.program).run files targets
  match ← Task.attempt (inAnalysis task) with
  | .ok reports => return some reports
  | .error e =>
    Log.write .error .command s!"Fatal error: {e.message}"
    return none

def exportBook (around : Surroundings) (s : Settings) (reports : List Report) :
    Task Session Unit := do
  if s.excelOutput.isTruthy then
    let path ← Task.ofExcept s.excelOutput.asText
    inWorkspace (Workbook.save around.now path reports)

def deliver (around : Surroundings) (s : Settings) (reports : List Report) : Task Session Nat := do
  for report in reports do
    print report.text
  exportBook around s reports
  return if reports.isEmpty then 0 else 1

/-- The settings that a command starts from. There are none when the file that is named for them is
not there. -/
def readSettings (around : Surroundings) (line : CommandLine) : Task Session (Option Settings) := do
  match given line.config with
  | none => return some {}
  | some path =>
    let files := (← get).files
    if !(← Task.ofExcept (files.isPresent (Path.tidy path))) then
      complain s!"Error: 設定ファイルが見つかりません: {path}"
      return none
    return some (← Settings.load files path around.level)

/-- Checks what is asked for: the settings and targets of an analysis, or none when a problem was
told. -/
def request (line : CommandLine) (s : Settings) : Task Session (Option (Settings × Value)) := do
  let s ← Task.ofExcept (override line s)
  openLog s.logLevel s.logFile
  let files := (← get).files
  let problems := (← s.validate files) ++ (← Task.ofExcept (missingFiles files line.files))
  if !problems.isEmpty then
    for problem in problems do
      Log.write .error .command s!"Configuration error: {problem}"
    return none
  -- Source files are looked for only where no targets are given.
  if line.files.isEmpty then
    if (← s.allSourceFiles files).isEmpty then
      Log.write .error .command "解析対象のソースファイルがありません"
      return none
  let targets := if line.files.isEmpty then .null else .list (line.files.map .text)
  return some (s, targets)

def plan (around : Surroundings) (line : CommandLine) :
    Task Session (Option (Settings × Value)) := do
  match ← readSettings around line with
  | none => return none
  | some s => request line s

def finish (around : Surroundings) : Option (Settings × Value) → Task Session Nat
  | none => return 2
  | some (s, targets) => do
    match ← analyze around s targets with
    | some reports => deliver around s reports
    | none => return 2

def carryOut (around : Surroundings) (line : CommandLine) : Task Session Nat := do
  match given line.initConfig with
  | some directory =>
    initConfig around.input directory ((given line.config).getD "queryloop.yaml") line.verbose
  | none => finish around (← plan around line)

def run (around : Surroundings) (arguments : List String) : Task Session Ending := do
  match CommandLine.parse arguments with
  | .ok line => return .done (← carryOut around line)
  | .error stop =>
    complain stop.message
    return .stopped stop

def writeLog (time : String) : Task Session Unit := do
  let s ← get
  match s.sink with
  | some (sink, start) =>
    inWorkspace (sink.append time ((s.log.toList.drop start).map Log.Entry.toRecord))
  | none => return ()

end Command

end NPlusOne
