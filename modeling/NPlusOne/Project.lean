import NPlusOne.Extraction
import NPlusOne.FileTree.Glob
import NPlusOne.FrontEnd

namespace NPlusOne

/-- Which files count as the project's own: its source files and all that lies below its roots.
All paths are absolute and in normal form. -/
structure Project where
  sources : List String
  roots : List String
  deriving DecidableEq, Repr

namespace Project

/-- A project from paths in any form; without roots, the directories of the sources serve. -/
def make (files : FileTree) (sources : List String) (roots : Option (List String)) : Project :=
  let sources := sources.map files.absolute
  let roots := roots.getD (sortUnique (sources.map Path.directory))
  ⟨sources, roots.map files.absolute⟩

/-- The path is the root or continues it behind a slash. -/
def under (root path : String) : Bool :=
  path = root || Text.startsWith (root ++ "/").toList path.toList

def holds (p : Project) (files : FileTree) (path : String) : Bool :=
  let path := files.absolute path
  p.sources.contains path || p.roots.any fun root => under root path

end Project

abbrev DefinitionIndex := List (String × String)

structure ProjectState where
  cache : UnitCache := {}
  index : Option DefinitionIndex := none

theorem ProjectState.isPart_cache :
    IsPart ProjectState.cache fun c s => { s with cache := c } :=
  ⟨fun _ _ => rfl, fun _ => rfl, fun _ _ _ => rfl⟩

instance : HasLog ProjectState where
  append entry s := { s with cache := HasLog.append entry s.cache }

/-- The result of a task, or the reason why a file did not parse; other failures go on. -/
def catchParse {σ α : Type} (task : Task σ α) : Task σ (Except ParseError α) := do
  match ← Task.attempt task with
  | .ok a => return .ok a
  | .error (.parse e) => return .error e
  | .error e => throw e

/-- Finds the definitions that calls lead to in other files of the project. -/
structure Resolver where
  frontEnd : FrontEnd
  project : Project

namespace Resolver

def inProject (r : Resolver) (path : String) : Bool :=
  r.project.holds r.frontEnd.files path

def loadUnit (r : Resolver) (path : String) : Task ProjectState TranslationUnit := do
  let loaded ← Task.within ProjectState.cache (fun c s => { s with cache := c })
    (r.frontEnd.load path false) ProjectState.isPart_cache
  return loaded.unit

/-- Enters definitions into the index; of one USR the first definition in the project counts. -/
def enter (r : Resolver) (index : DefinitionIndex) (n : Node) : DefinitionIndex :=
  match n.file? with
  | none => index
  | some path =>
    if n.info.usr ≠ "" && (index.lookup n.info.usr).isNone && r.inProject path
    then index ++ [(n.info.usr, path)] else index

def indexFiles (r : Resolver) : List String → DefinitionIndex → Task ProjectState DefinitionIndex
  | [], index => return index
  | path :: rest, index => do
    match ← catchParse (r.loadUnit path) with
    | .error e =>
      Log.write .warning .resolver s!"Skipping {path} in definition index: {e.message}"
      r.indexFiles rest index
    | .ok unit =>
      let found ← Task.ofExcept unit.indexed
      r.indexFiles rest (found.foldl r.enter index)

/-- The index, made when it is asked for the first time. -/
def makeIndex (r : Resolver) : Task ProjectState DefinitionIndex := do
  match (← get).index with
  | some index => return index
  | none =>
    let index ← r.indexFiles r.project.sources []
    let files := r.project.sources.length
    Log.write .info .resolver
      s!"Definition index built: {index.length} definitions from {files} files"
    modify fun s => { s with index := some index }
    return index

/-- The index; while one asks for it, the others wait. -/
def definitionIndex (r : Resolver) : Task ProjectState DefinitionIndex :=
  r.makeIndex.locked

def locate (r : Resolver) (callee : Cursor) : Task ProjectState (Option String) := do
  match callee.definition?.bind (·.node.file?) with
  | some path =>
    if r.inProject path then return some path
    let name := callee.node.spelling
    Log.write .debug .resolver s!"Definition of {name} is outside the project: {path}"
    return none
  | none =>
    if callee.node.info.usr = "" then return none
    return (← r.definitionIndex).lookup callee.node.info.usr

/-- All function definitions of the file that defines a function; none if no file of the project
does, or if it does not parse. -/
def resolve (r : Resolver) (callee : Cursor) : Task ProjectState (Option (List Cursor)) := do
  let name := callee.node.spelling
  match ← r.locate callee with
  | none =>
    Log.write .debug .resolver s!"No project definition found for {name}"
    return none
  | some path =>
    match ← catchParse (r.loadUnit path) with
    | .error e =>
      Log.write .warning .resolver s!"Failed to load {path} for {name}: {e.message}"
      return none
    | .ok unit =>
      let found ← unit.listFunctions path
      return some (found.map fun n => ⟨unit, n⟩)

end Resolver

end NPlusOne
