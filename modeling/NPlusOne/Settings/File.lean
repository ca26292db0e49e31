import NPlusOne.Cmake.CompileDatabase
import NPlusOne.FileTree
import NPlusOne.Settings
import NPlusOne.Yaml.Block
import NPlusOne.Yaml.Load

namespace NPlusOne

namespace Settings

def readText (files : FileTree) (path : String) : Except Failure (List Char) := do
  match Utf8.decode? (← files.read path) with
  | some text => return Text.unifyNewlines text
  | none => throw .badEncoding

variable {σ : Type} [HasLog σ]

/-- The settings of a file. The level of the log can be given from outside, and that wins. -/
def load (files : FileTree) (path : String) (level : Option String) : Task σ Settings := do
  let document ← Task.ofExcept do Yaml.load (← readText files path)
  let s ← ofValue (if document.isTruthy then document else .map [])
  let s := match level with
    | some name => { s with logLevel := .text name }
    | none => s
  Log.write .info .settings s!"Configuration loaded from {path}"
  return s

/-- The entries that go into a file: two of them only when they are set. -/
def savedEntries (s : Settings) : Except Failure (List (String × Value)) := do
  return (← s.entries).filter fun (key, v) =>
    !((key = "excel_output" || key = "log_file") && v matches .null)

/-- Writes a document into a file. One with a number that is too long leaves the file empty. -/
def writeDocument (path : String) (document : Value) : Task Workspace Unit := do
  if document.hasLongNumber then
    Workspace.write path (.bytes [])
    throw (.tooManyDigits none)
  else Workspace.write path (.bytes (Yaml.render document).toUTF8.toList)

def save (s : Settings) (path : String) : Task Workspace Unit := do
  Task.ofExcept (s.keeps .save)
  Workspace.makeParent path
  let entries ← Task.ofExcept s.savedEntries
  writeDocument path (.map (entries.map fun (key, v) => (.text key, v)))
  Log.write .info .settings s!"Configuration saved to {path}"

def ofProject (p : CmakeProject) : Settings :=
  let texts (xs : List String) : Value := .list (xs.map .text)
  { includePaths := texts p.includePaths
    sourceDirectories := texts p.sourceDirectories
    sourceFiles := texts p.sourceFiles
    compilerArgs := texts p.compilerArgs
    standard := .text (p.standard.getD "c++17") }

def ofCmake (input directory : String) (output : Option String) : Task Workspace Settings := do
  let s := ofProject (← Cmake.discover (← MonadState.get).files input directory)
  match output with
  | some path => if path ≠ "" then s.save path
  | none => pure ()
  return s

end Settings

end NPlusOne
