import NPlusOne.FileTree
import NPlusOne.Log
import NPlusOne.Program.Node
import NPlusOne.Value

namespace NPlusOne

/-- What the parser makes of a source file. -/
inductive ParseOutcome where
  | unit (u : TranslationUnit)
  | rejected
  | nothing
  deriving Repr

/-- The outcomes of parsing each path: the n-th attempt takes the n-th one, the last repeats. -/
structure Program where
  outcomes : List (String × List ParseOutcome) := []
  deriving Repr

namespace Program

/-- The n-th outcome of a list whose last element repeats. -/
def nth : List ParseOutcome → Nat → ParseOutcome
  | [], _ => .rejected
  | [o], _ => o
  | o :: _ :: _, 0 => o
  | _ :: p :: rest, n + 1 => nth (p :: rest) n

/-- The outcome of parsing a path after `earlier` attempts; an unknown path is rejected. -/
def parse (p : Program) (path : String) (earlier : Nat) : ParseOutcome :=
  match p.outcomes.find? (·.1 = path) with
  | some (_, outcomes) => nth outcomes earlier
  | none => .rejected

def nodeCount (p : Program) : Nat :=
  (p.outcomes.flatMap Prod.snd).foldl (fun n o => match o with
    | .unit u => n + u.nodes.size
    | _ => n) 0

end Program

structure CompilerOptions where
  includePaths : Value := .list []
  arguments : Value := .list []
  standard : Value := .text "c++17"
  deriving Repr

namespace CompilerOptions

/-- The arguments for a source file; its own directory is the first include path. -/
def argumentsFor (o : CompilerOptions) (path : String) : Except Failure (List Value) := do
  let standard ← o.standard.shown
  let includes ← o.includePaths.parts
  let extra ← o.arguments.parts
  let fixed := ["-x", "c++", "-std=" ++ standard, "-Wno-pragma-once-outside-header",
    "-I", Path.parent path]
  return fixed.map .text ++ includes.flatMap (fun dir => [.text "-I", dir]) ++ extra

end CompilerOptions

/-- One call of the parser; `source` is the text that stands for the file, if one does. -/
structure ParserCall where
  path : String
  arguments : List Value
  source : Option String := none
  deriving Repr

/-- A unit and its number among the units of a session. -/
structure LoadedUnit where
  serial : Nat
  unit : TranslationUnit
  deriving Repr

structure FrontEnd where
  program : Program
  files : FileTree
  options : CompilerOptions := {}

structure UnitCache where
  units : List (String × LoadedUnit) := []
  built : Nat := 0
  calls : List ParserCall := []
  log : Log := #[]

instance : HasLog UnitCache where
  append entry c := { c with log := c.log.push entry }

namespace UnitCache

def find? (c : UnitCache) (path : String) : Option LoadedUnit :=
  (c.units.find? (·.1 = path)).map Prod.snd

def put (c : UnitCache) (path : String) (u : LoadedUnit) : UnitCache :=
  { c with units := (path, u) :: c.units.filter (·.1 ≠ path) }

end UnitCache

namespace FrontEnd

/-- A new front end; the number of include paths goes to the log. -/
def start (options : CompilerOptions) : Task UnitCache CompilerOptions := do
  let given (v : Value) : Value := if v.isTruthy then v else .list []
  let options := { options with
    includePaths := given options.includePaths, arguments := given options.arguments }
  let count ← Task.ofExcept options.includePaths.size
  Log.write .info .frontEnd s!"ClangAnalyzer initialized with {count} include paths"
  return options

def callParser (f : FrontEnd) (call : ParserCall) : Task UnitCache ParseOutcome := do
  let earlier ← modifyGet fun c =>
    (c.calls.countP (·.path = call.path), { c with calls := c.calls ++ [call] })
  return f.program.parse call.path earlier

def number (unit : TranslationUnit) : Task UnitCache LoadedUnit := do
  let serial ← modifyGet fun c => (c.built + 1, { c with built := c.built + 1 })
  return ⟨serial, unit⟩

def parseFile (f : FrontEnd) (path : String) : Task UnitCache LoadedUnit := do
  if !f.files.contains path then throw (.parse (.sourceMissing path))
  let arguments ← Task.ofExcept (f.options.argumentsFor path)
  match ← f.callParser { path, arguments } with
  | .rejected => throw (.parse (.rejected path))
  | .nothing => throw (.parse (.noUnit path))
  | .unit unit =>
    let loaded ← number unit
    for d in unit.diagnostics do
      if Diagnostic.error ≤ d.severity then
        Log.write .warning .frontEnd s!"Parse error in {path}: {d.text}"
    modify fun c => c.put path loaded
    Log.write .debug .frontEnd s!"Parsed {path}"
    return loaded

/-- The unit of a file: the kept one, unless there is none or `force` asks for a new one. -/
def load (f : FrontEnd) (path : String) (force : Bool) : Task UnitCache LoadedUnit := do
  let path := f.files.absolute path
  match (← get).find? path with
  | some unit => if force then f.parseFile path else return unit
  | none => f.parseFile path

/-- Parses a text in place of the file `name`; the unit is not kept. -/
def parseText (f : FrontEnd) (source name : String) : Task UnitCache (Option LoadedUnit) := do
  let arguments ← Task.ofExcept (f.options.argumentsFor name)
  match ← f.callParser { path := name, arguments, source := some source } with
  | .rejected => throw (.parse .textRejected)
  | .nothing => return none
  | .unit unit => return some (← number unit)

end FrontEnd

end NPlusOne
