import NPlusOne.Log
import NPlusOne.Memo
import NPlusOne.Report
import NPlusOne.TypeIdentity

namespace NPlusOne

/-- The state of a search for queries in loops: what is known about functions, the reports and the
walked bodies so far, and whatever the resolver of calls keeps. -/
structure WalkState (ρ : Type) where
  memo : Memo := {}
  reports : List Report := []
  walked : List Cursor := []
  project : ρ

instance {ρ : Type} [HasLog ρ] : HasLog (WalkState ρ) where
  append entry s := { s with project := HasLog.append entry s.project }

/-- What a search for queries in loops is given. -/
structure LoopSearch (ρ : Type) where
  registry : Registry
  resolve : Cursor → Task ρ (Option (List Cursor))
  message : String := Report.queryInLoop
  announce : Bool := false
  /-- No chain of calls is longer; the number of declarations will do. Apart from that a search goes
  as deep as the program does: unlike documents and links, calls and trees have no limit of their
  own to how far they may nest. -/
  bound : Nat

/-- The body that is being walked: where reports go, the file, and for a function its id. -/
structure WalkRoot where
  unit : TranslationUnit
  target : Option Node
  file : String
  function : Option DeclarationId

namespace Node

/-- Behind parentheses and conversions stands a plain name. -/
def isPlainName : Node → Except Failure Bool
  | .mk _ info children =>
    if info.kind.isWrapper then
      match info.failure, children with
      | some reason, _ => .error (.children reason)
      | none, [inner] => isPlainName inner
      | none, _ => .ok false
    else .ok (info.kind = .declRef)

end Node

namespace Cursor

def simpleCallee (call : Cursor) : Except Failure (Option Cursor) :=
  match call.referenced? with
  | none => .ok none
  | some callee =>
    if !callee.node.kind.isCallable then .ok none
    else match call.node.children with
      | .error e => .error e
      | .ok [] => .ok none
      | .ok (expr :: _) =>
        match expr.isPlainName with
        | .error e => .error e
        | .ok plain => .ok (if plain then some callee else none)

end Cursor

namespace LoopSearch

variable {ρ : Type} [HasLog ρ]

/-- Reports at a node; a node that lies in no file only leaves a warning. -/
def report (s : LoopSearch ρ) (target : Option Node) : Task (WalkState ρ) Unit := do
  match target.bind (Report.atNode? · s.message) with
  | none => Log.write .warning .walk "Report target has no source location; report skipped"
  | some r =>
    if s.announce then Log.write .debug .command s!"Report: {r.text}"
    modify fun st => { st with reports := st.reports ++ [r] }

def isQueryUse (s : LoopSearch ρ) (u : TranslationUnit) (n : Node) : Bool :=
  n.kind.isIdentifier && s.registry.matchesType u (u.typeOf n)

/-- Works off a stack of nodes in source order. A query use is reported and not entered; the first
one settles a function. A call is expanded before its children. -/
def walk (s : LoopSearch ρ) (expand : Cursor → Task (WalkState ρ) Bool) (root : WalkRoot) :
    List Node → Bool → Task (WalkState ρ) Bool
  | [], found => return found
  | n :: rest, found => do
    if s.isQueryUse root.unit n then
      s.report (root.target <|> some n)
      match root.function with
      | some id =>
        modify fun st => { st with memo := st.memo.record id true }
        return true
      | none => s.walk expand root rest true
    else
      let reached ← if n.kind = .call then expand ⟨root.unit, n⟩ else pure false
      match _h : n.children with
      | .error e => throw e
      | .ok children => s.walk expand root (children ++ rest) (found || reached)
termination_by stack => Node.sizeList stack
decreasing_by
  · simp only [Node.sizeList]
    have := Node.size_eq n
    omega
  · rw [Node.subtrees_of_children _h]
    simp only [Node.sizeList, Node.sizeList_append, Node.size_eq n]
    omega

def walkBody (s : LoopSearch ρ) (expand : Cursor → Task (WalkState ρ) Bool) (root : WalkRoot)
    (body : Node) : Task (WalkState ρ) Bool := do
  modify fun st => { st with walked := st.walked ++ [⟨root.unit, body⟩] }
  s.walk expand root [body] false

/-- Checks every definition in turn; answers whether one of them reaches a query. -/
def checkAll (check : Cursor → Task (WalkState ρ) Bool) :
    List Cursor → Bool → Task (WalkState ρ) Bool
  | [], found => return found
  | definition :: rest, found => do
    let reached ← check definition
    checkAll check rest (found || reached)

/-- Goes on into the function that a call names: its definition in the same file, or else all
functions of the file that defines it. -/
def expandCall (s : LoopSearch ρ) (check : Cursor → Option Node → Task (WalkState ρ) Bool)
    (file : String) (call : Cursor) : Task (WalkState ρ) Bool := do
  match ← Task.ofExcept call.simpleCallee with
  | none => return false
  | some callee =>
    let elsewhere : Task (WalkState ρ) Bool := do
      let found ← Task.within WalkState.project (fun p st => { st with project := p })
        (s.resolve callee)
      match found with
      | none => return false
      | some definitions => checkAll (check · (some call.node)) definitions false
    match callee.definition? with
    | none => elsewhere
    | some definition =>
      if definition.node.file? = some file then check definition (some call.node) else elsewhere

/-- Starts on a function unless it was met before; then its verdict stands, and a true one is
reported at the call. -/
def enter (s : LoopSearch ρ) (definition : Cursor) (call : Option Node)
    (body : DeclarationId → Task (WalkState ρ) Bool) : Task (WalkState ρ) Bool := do
  let id ← Task.ofExcept (DeclarationId.of definition.node)
  if ← Memo.beginVisit WalkState.memo (fun memo st => { st with memo }) id then
    let verdict ← body id
    modify fun st => { st with memo := st.memo.record id verdict }
    return verdict
  else
    let verdict := (← get).memo.verdictOf id
    if verdict then s.report call
    return verdict

/-- Checks a function with at most `depth` further functions inside each other. -/
def checkFunctionDepth (s : LoopSearch ρ) : Nat → Cursor → Option Node → Task (WalkState ρ) Bool
  | 0, definition, call => s.enter definition call fun _ => throw .tooDeep
  | depth + 1, definition, call =>
    s.enter definition call fun id =>
      s.walkBody (s.expandCall (s.checkFunctionDepth depth) id.file)
        ⟨definition.unit, call, id.file, some id⟩ definition.node

/-- Whether a function reaches a query. `call` is where that is reported; each function is walked
once. -/
def checkFunction (s : LoopSearch ρ) (definition : Cursor) (call : Option Node) :
    Task (WalkState ρ) Bool :=
  s.checkFunctionDepth s.bound definition call

/-- Whether a loop reaches a query. Queries in the loop itself are reported at the loop, those
behind a call at the call. -/
def checkLoop (s : LoopSearch ρ) (loop : Cursor) : Task (WalkState ρ) Bool := do
  match loop.node.file? with
  | none =>
    let kind := loop.node.kind.name
    Log.write .warning .walk s!"Loop without file location skipped: CursorKind.{kind}"
    return false
  | some file =>
    s.walkBody (s.expandCall s.checkFunction file) ⟨loop.unit, some loop.node, file, none⟩ loop.node

end LoopSearch

end NPlusOne
