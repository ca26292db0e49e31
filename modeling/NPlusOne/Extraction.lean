import NPlusOne.Log
import NPlusOne.Program.Node

namespace NPlusOne

namespace Node

def isIn (n : Node) (file : String) : Bool :=
  n.file? = some file

mutual

/-- The outermost function definitions of a tree, below nodes of the file only. -/
def definitionsIn (file : String) : Node → Except Failure (List Node)
  | .mk id info children =>
    let this := Node.mk id info children
    if !this.isIn file then .ok []
    else if this.isFunctionDefinition then .ok [this]
    else match info.failure with
      | some reason => .error (.children reason)
      | none => definitionsInAll file children

def definitionsInAll (file : String) : List Node → Except Failure (List Node)
  | [] => .ok []
  | n :: rest =>
    match definitionsIn file n with
    | .error e => .error e
    | .ok these =>
      match definitionsInAll file rest with
      | .error e => .error e
      | .ok those => .ok (these ++ those)

end

mutual

/-- The loops of a tree, an outer loop before those inside it, below nodes of the file only. Trees
are gone through to any depth. -/
def loopsIn (file : String) : Node → Except Failure (List Node)
  | .mk id info children =>
    let this := Node.mk id info children
    if !this.isIn file then .ok []
    else match info.failure with
      | some reason => .error (.children reason)
      | none =>
        match loopsInAll file children with
        | .error e => .error e
        | .ok inner => .ok (if info.kind.isLoop then this :: inner else inner)

def loopsInAll (file : String) : List Node → Except Failure (List Node)
  | [] => .ok []
  | n :: rest =>
    match loopsIn file n with
    | .error e => .error e
    | .ok these =>
      match loopsInAll file rest with
      | .error e => .error e
      | .ok those => .ok (these ++ those)

end

mutual

/-- The function definitions that a tree declares, reached through scopes and never from inside
another definition. A node that lies in no file hides what is below it. -/
def indexedDefinitions : Node → Except Failure (List Node)
  | .mk id info children =>
    let this := Node.mk id info children
    if info.place.isNone then .ok []
    else if this.isFunctionDefinition then .ok [this]
    else if info.kind.holdsDefinitions then
      match info.failure with
      | some reason => .error (.children reason)
      | none => indexedDefinitionsAll children
    else .ok []

def indexedDefinitionsAll : List Node → Except Failure (List Node)
  | [] => .ok []
  | n :: rest =>
    match indexedDefinitions n with
    | .error e => .error e
    | .ok these =>
      match indexedDefinitionsAll rest with
      | .error e => .error e
      | .ok those => .ok (these ++ those)

end

end Node

namespace TranslationUnit

def functionDefinitions (u : TranslationUnit) (path : String) : Except Failure (List Node) := do
  Node.definitionsInAll (Path.normalize path) (← u.root.children)

/-- The function definitions of a file; their number goes to the log. -/
def listFunctions {σ : Type} [HasLog σ] (u : TranslationUnit) (path : String) :
    Task σ (List Node) := do
  let found ← Task.ofExcept (u.functionDefinitions path)
  Log.write .debug .extraction s!"Found {found.length} function definitions in {path}"
  return found

def loops (u : TranslationUnit) (path : String) : Except Failure (List Node) := do
  Node.loopsInAll (Path.normalize path) (← u.root.children)

/-- The function definitions that the unit adds to the index, in source order. -/
def indexed (u : TranslationUnit) : Except Failure (List Node) := do
  Node.indexedDefinitionsAll (← u.root.children)

end TranslationUnit

end NPlusOne
