import NPlusOne.FileTree.Glob
import NPlusOne.Log
import NPlusOne.Value

namespace NPlusOne

/-- What can be asked of settings. A key of a configuration that bears the name of an operation
takes its place, and the operation is lost. -/
inductive SettingsOperation where
  | validate
  | entries
  | save
  | sourceFiles
  | projectRoots
  | extraQueryTypes
  deriving DecidableEq, Repr

namespace SettingsOperation

def all : List SettingsOperation :=
  [.validate, .entries, .save, .sourceFiles, .projectRoots, .extraQueryTypes]

def key : SettingsOperation → String
  | validate => "validate"
  | entries => "to_dict"
  | save => "save_yaml"
  | sourceFiles => "get_source_files"
  | projectRoots => "get_project_roots"
  | extraQueryTypes => "extra_query_types"

def ofKey? (key : String) : Option SettingsOperation :=
  all.find? (·.key = key)

end SettingsOperation

inductive Setting where
  | includePaths
  | sourceDirectories
  | sourceFiles
  | compilerArgs
  | standard
  | queryTypes
  | jobs
  | suppressionMarker
  | excelOutput
  | logLevel
  | logFile
  deriving DecidableEq, Repr

namespace Setting

def all : List Setting :=
  [.includePaths, .sourceDirectories, .sourceFiles, .compilerArgs, .standard, .queryTypes, .jobs,
    .suppressionMarker, .excelOutput, .logLevel, .logFile]

def key : Setting → String
  | includePaths => "include_paths"
  | sourceDirectories => "source_directories"
  | sourceFiles => "source_files"
  | compilerArgs => "compiler_args"
  | standard => "cxx_standard"
  | queryTypes => "query_types"
  | jobs => "jobs"
  | suppressionMarker => "suppression_marker"
  | excelOutput => "excel_output"
  | logLevel => "log_level"
  | logFile => "log_file"

def ofKey? (key : String) : Option Setting :=
  all.find? (·.key = key)

/-- The settings that are lists; when all values are replaced at once, they have no default. -/
def isList : Setting → Bool
  | includePaths => true
  | sourceDirectories => true
  | sourceFiles => true
  | compilerArgs => true
  | queryTypes => true
  | _ => false

end Setting

/-- The settings of an analysis. The values are kept as they were given; each operation looks at
the ones that it needs. -/
structure Settings where
  includePaths : Value := .list []
  sourceDirectories : Value := .list []
  sourceFiles : Value := .list []
  compilerArgs : Value := .list []
  standard : Value := .text "c++17"
  queryTypes : Value := .list []
  jobs : Value := .int 1
  suppressionMarker : Value := .text "queryloop:ignore"
  excelOutput : Value := .null
  logLevel : Value := .text "INFO"
  logFile : Value := .null
  lost : List SettingsOperation := []
  /-- The settings that are gone, and further keys that are taken without any effect. -/
  missing : List Setting := []
  extras : List String := []
  deriving Repr

namespace Settings

def get (s : Settings) : Setting → Value
  | .includePaths => s.includePaths
  | .sourceDirectories => s.sourceDirectories
  | .sourceFiles => s.sourceFiles
  | .compilerArgs => s.compilerArgs
  | .standard => s.standard
  | .queryTypes => s.queryTypes
  | .jobs => s.jobs
  | .suppressionMarker => s.suppressionMarker
  | .excelOutput => s.excelOutput
  | .logLevel => s.logLevel
  | .logFile => s.logFile

def put (s : Settings) (name : Setting) (v : Value) : Settings :=
  match name with
  | .includePaths => { s with includePaths := v }
  | .sourceDirectories => { s with sourceDirectories := v }
  | .sourceFiles => { s with sourceFiles := v }
  | .compilerArgs => { s with compilerArgs := v }
  | .standard => { s with standard := v }
  | .queryTypes => { s with queryTypes := v }
  | .jobs => { s with jobs := v }
  | .suppressionMarker => { s with suppressionMarker := v }
  | .excelOutput => { s with excelOutput := v }
  | .logLevel => { s with logLevel := v }
  | .logFile => { s with logFile := v }

def value (s : Settings) (name : Setting) : Except Failure Value :=
  if s.missing.contains name then .error .noMember else .ok (s.get name)

def restore (s : Settings) (name : Setting) (v : Value) : Settings :=
  { s.put name v with missing := s.missing.filter (· ≠ name) }

def idleKeys : List String :=
  ["from_yaml", "from_dict", "from_cmake_project"] ++
  ["annotations", "dataclass_fields", "dataclass_params", "delattr", "dir", "doc", "eq", "format",
    "ge", "getattribute", "getstate", "gt", "hash", "init", "init_subclass", "le", "lt",
    "match_args", "module", "ne", "new", "reduce", "reduce_ex", "repr", "setattr", "sizeof", "str",
    "subclasshook"].map fun name => "__" ++ name ++ "__"

/-- The settings that consist of the given entries alone. A list that is not among them is gone; any
other setting has its default. -/
def ofEntries (entries : List (Value × Value)) : Settings :=
  let has (key : String) : Bool := (Value.find? key entries).isSome
  let start : Settings :=
    { lost := SettingsOperation.all.filter (has ·.key)
      missing := Setting.all.filter fun name => name.isList && !has name.key
      extras := entries.filterMap fun e => e.1.asText.toOption }
  Setting.all.foldl (fun s name =>
    match Value.find? name.key entries with
    | some v => s.put name v
    | none => s) start

/-- Sets one key; an unknown key is refused. Two keys cannot be set at all, and one replaces all
values. -/
def set (s : Settings) (key : String) (v : Value) : Except Failure (Option Settings) :=
  match key with
  | "__class__" => .error .wrongKind
  | "__weakref__" => .error .noMember
  | "__dict__" =>
    match v.unfold with
    | .map entries => .ok (some (ofEntries entries))
    | _ => .error .wrongKind
  | _ =>
    match Setting.ofKey? key, SettingsOperation.ofKey? key with
    | some name, _ => .ok (if s.missing.contains name then none else some (s.put name v))
    | none, some op => .ok (some { s with lost := op :: s.lost })
    | none, none => .ok (if (idleKeys ++ s.extras).contains key then some s else none)

variable {σ : Type} [HasLog σ]

def setAll : Settings → List (Value × Value) → Task σ Settings
  | s, [] => return s
  | s, (key, v) :: rest => do
    let name ← Task.ofExcept key.asText
    match ← Task.ofExcept (s.set name v) with
    | some s => s.setAll rest
    | none =>
      Log.write .warning .settings s!"Unknown configuration key ignored: {name}"
      s.setAll rest

/-- The settings that a map gives; the others have their defaults. -/
def ofValue (v : Value) : Task σ Settings :=
  match v.unfold with
  | .map entries => setAll {} entries
  | _ => throw .noMember

/-- Refuses an operation that is lost. -/
def keeps (s : Settings) (op : SettingsOperation) : Except Failure Unit :=
  if s.lost.contains op then .error .wrongKind else .ok ()

def entries (s : Settings) : Except Failure (List (String × Value)) := do
  s.keeps .entries
  Setting.all.mapM fun name => do return (name.key, ← s.value name)

def jobsProblems (s : Settings) : Except Failure (List String) := do
  let isFine : Bool := match s.jobs.asInt? with
    | some n => 1 ≤ n
    | none => false
  if isFine then return []
  else return ["jobsは1以上の整数である必要があります: " ++ (← s.jobs.shown)]

def isQueryTypeEntry (v : Value) : Bool :=
  match v.unfold with
  | .map entries =>
    let named (key : String) : Bool := ((Value.find? key entries).getD .null).isTruthy
    named "library" && named "type"
  | _ => false

def queryTypeProblems (s : Settings) : Except Failure (List String) := do
  let bad := (← (← s.value .queryTypes).parts).filter (!isQueryTypeEntry ·)
  bad.mapM fun entry => do
    return "query_typesの各要素にはlibraryとtypeが必要です: " ++ (← entry.shown)

def absentPaths (files : FileTree) : List Value → Except Failure (List String)
  | [] => .ok []
  | v :: rest => do
    let path ← v.asText
    if ← files.isPresent (Path.tidy path) then absentPaths files rest
    else return path :: (← absentPaths files rest)

def warnIncludes (files : FileTree) : List Value → Task σ Unit
  | [] => return ()
  | v :: rest => do
    let path ← Task.ofExcept v.asText
    if !(← Task.ofExcept (files.isPresent (Path.tidy path))) then
      Log.write .warning .settings s!"Include path does not exist: {path}"
    warnIncludes files rest

def validate (s : Settings) (files : FileTree) : Task σ (List String) := do
  let (jobs, types) ← Task.ofExcept do
    s.keeps .validate
    let jobs ← s.jobsProblems
    return (jobs, ← s.queryTypeProblems)
  warnIncludes files (← Task.ofExcept do (← s.value .includePaths).parts)
  let absent (name : Setting) : Task σ (List String) :=
    Task.ofExcept do absentPaths files (← (← s.value name).parts)
  let dirs ← absent .sourceDirectories
  let sources ← absent .sourceFiles
  return jobs ++ types ++ dirs.map ("ソースディレクトリが存在しません: " ++ ·) ++
    sources.map ("ソースファイルが存在しません: " ++ ·)

def extraQueryTypes (s : Settings) : Except Failure (List (Value × Value)) := do
  s.keeps .extraQueryTypes
  (← (← s.value .queryTypes).parts).mapM fun entry => do
    let library ← entry.require "library"
    let type ← entry.require "type"
    return (library, type)

def resolveAll (files : FileTree) (paths : Value) : Except Failure (List String) := do
  (← paths.parts).mapM fun v => do files.resolve (← v.asText)

/-- The source files: those that are named and those below the source directories. -/
def allSourceFiles (s : Settings) (files : FileTree) : Task σ (List String) := do
  let found ← Task.ofExcept do
    s.keeps .sourceFiles
    let named ← resolveAll files (← s.value .sourceFiles)
    let dirs ← (← s.value .sourceDirectories).parts
    let below ← dirs.mapM fun v => do files.sourceFiles (← v.asText)
    return sortUnique (named ++ below.flatten)
  Log.write .debug .settings s!"Found {found.length} source files"
  return found

def projectRoots (s : Settings) (files : FileTree) : Except Failure (List String) := do
  s.keeps .projectRoots
  let dirs ← resolveAll files (← s.value .sourceDirectories)
  let sources ← resolveAll files (← s.value .sourceFiles)
  return sortUnique (dirs ++ sources.map Path.parent)

end Settings

end NPlusOne
