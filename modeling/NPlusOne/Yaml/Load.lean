import NPlusOne.Yaml.Atom
import NPlusOne.Yaml.Members
import NPlusOne.Yaml.Node

namespace NPlusOne

namespace Yaml

/-- The values that have been made so far. A list, map or set is a cell, and a link stands for it;
its parts are made later, in the order in which the cells were opened. -/
structure Build where
  nodes : Array Node
  made : Array (Option Value)
  cells : Array Value := #[]
  opened : Array (Nat × Nat) := #[]

abbrev Building (α : Type) : Type := StateT Build (Except Failure) α

namespace Building

def fail {α : Type} : Building α := throw .notYaml

def nodeAt (id : Nat) : Building Node :=
  return (← get).nodes[id]?.getD (.scalar "" "")

def tagAt (id : Nat) : Building String :=
  return (← nodeAt id).tag

def entriesAt (id : Nat) : Building (List (Nat × Nat)) := do
  match ← nodeAt id with
  | .mapping _ entries => return entries
  | _ => return []

def setEntries (id : Nat) (entries : List (Nat × Nat)) : Building Unit := do
  let tag ← tagAt id
  modify fun b => { b with nodes := b.nodes.set! id (.mapping tag entries) }

/-- The text of a node; a map may hold it under a key of its own kind. The counter bounds the steps:
a map that holds itself has no text. -/
def textAt : Nat → Nat → Building String
  | 0, _ => throw .tooDeep
  | n + 1, id => do
    match ← nodeAt id with
    | .scalar _ text => return text
    | .sequence _ _ => fail
    | .mapping _ entries =>
      match ← entries.findM? fun (key, _) => return (← tagAt key) = coreTag "value" with
      | some (_, value) => textAt n value
      | none => fail

def addCell (start : Value) : Building Value := do
  let b ← get
  set { b with cells := b.cells.push start }
  return .link b.cells.size

def make (id : Nat) : Building Value := do
  let node ← nodeAt id
  match AtomKind.ofTag? node.tag, FrameKind.ofTag? node.tag with
  | some kind, _ =>
    let text ← textAt ((← get).nodes.size + 1) id
    if kind = .timestamp && !(node matches .scalar _ _) then throw .wrongKind
    kind.value text
  | none, some kind =>
    let cell := (← get).cells.size
    modify fun b => { b with opened := b.opened.push (id, cell) }
    addCell kind.start
  | none, none => fail

/-- The value of a node; a node in several places has one value. -/
def valueAt (id : Nat) : Building Value := do
  match (← get).made.getD id none with
  | some v => return v
  | none =>
    let v ← make id
    modify fun b => { b with made := b.made.set! id (some v) }
    return v

def prepend (id : Nat) (entries : List (Nat × Nat)) : Building Unit := do
  if !entries.isEmpty then setEntries id (entries ++ (← entriesAt id))

/-- The entries of a map, or of a list of maps of which the first counts most. Each of the maps is
flattened before. -/
def sourceEntries (flatten : Nat → Building Unit) (id : Nat) : Building (List (Nat × Nat)) := do
  match ← nodeAt id with
  | .mapping _ _ =>
    flatten id
    entriesAt id
  | .sequence _ items =>
    let parts ← items.mapM fun item => do
      if !((← nodeAt item) matches .mapping _ _) then fail
      flatten item
      entriesAt item
    return parts.reverse.flatten
  | .scalar _ _ => fail

/-- Takes the merge keys out of a map, from an entry on, and gives the entries that they stand for.
The sign for a map's own text becomes an ordinary key. The counter bounds how many are taken. -/
def takeMerged : Nat → Nat → Nat → Building (List (Nat × Nat))
  | 0, _, _ => throw .tooDeep
  | n + 1, id, start => do
    let entries ← entriesAt id
    let nodes := (← get).nodes
    let tagOf (key : Nat) : String := (nodes[key]?.getD (.scalar "" "")).tag
    let own := (entries.drop start).takeWhile fun (key, _) => tagOf key ≠ coreTag "merge"
    for (key, _) in own do
      if tagOf key = coreTag "value" then
        modify fun b => { b with nodes := b.nodes.modify key (·.withTag (coreTag "str")) }
    let position := start + own.length
    match entries[position]? with
    | none => return []
    | some (_, source) =>
      setEntries id (entries.eraseIdx position)
      let flatten (map : Nat) : Building Unit := do prepend map (← takeMerged n map 0)
      let merged ← sourceEntries flatten source
      return merged ++ (← takeMerged n id position)

/-- Puts the entries that are merged into a map before its own. -/
def flatten (id : Nat) : Building Unit := do
  let count := (← get).nodes.foldl (fun n node =>
    match node with
    | .mapping _ entries => n + entries.length
    | _ => n) 0
  prepend id (← takeMerged (2 * count + 4) id 0)

/-- What tells apart two keys that are no numbers: the sign for no number is one and the same in all
its places, any other such key is itself only. -/
def keyOrigin (id : Nat) : Building Nat := do
  match ← nodeAt id with
  | .scalar _ text => return if floatBody text.toList = ['.', 'n', 'a', 'n'] then 0 else id + 1
  | _ => return id + 1

structure Entry where
  key : Value
  origin : Nat
  value : Value

def Entry.sameKey (a b : Entry) : Bool :=
  match a.key, b.key with
  | .float .nan, .float .nan => a.origin = b.origin
  | k, l => k.same l

/-- Sets a key: a key that is there keeps its place and takes the new value. -/
def putEntry (e : Entry) : List Entry → List Entry
  | [] => [e]
  | d :: rest => if d.sameKey e then { d with value := e.value } :: rest else d :: putEntry e rest

/-- Makes an entry and sets its key. A list, map or set is no key. -/
def addEntry (done : List Entry) (entry : Nat × Nat) : Building (List Entry) := do
  let key ← valueAt entry.1
  if key matches .link _ then fail
  let value ← valueAt entry.2
  return putEntry { key, origin := ← keyOrigin entry.1, value } done

def entriesOf (id : Nat) : Building (List Entry) := do
  if !((← nodeAt id) matches .mapping _ _) then fail
  flatten id
  (← entriesAt id).foldlM addEntry []

def pairOf (id : Nat) : Building Value := do
  match ← nodeAt id with
  | .mapping _ [(k, v)] =>
    let key ← valueAt k
    let value ← valueAt v
    addCell (.tuple [key, value])
  | _ => fail

def contents (kind : FrameKind) (id : Nat) : Building Value := do
  match kind with
  | .map => return .map ((← entriesOf id).map fun e => (e.key, e.value))
  | .set => return .set (listed ((← entriesOf id).map (·.key)))
  | .seq =>
    match ← nodeAt id with
    | .sequence _ items => return .list (← items.mapM valueAt)
    | _ => fail
  | .pairs =>
    match ← nodeAt id with
    | .sequence _ items => return .list (← items.mapM pairOf)
    | _ => fail

/-- Makes the parts of the opened cells in their order; the counter bounds the number of cells. -/
def fillCells : Nat → (index : Nat) → Building Unit
  | 0, _ => return ()
  | n + 1, index => do
    match (← get).opened[index]? with
    | none => return ()
    | some (id, cell) =>
      if let some kind := FrameKind.ofTag? (← tagAt id) then
        let v ← contents kind id
        modify fun b => { b with cells := b.cells.set! cell v }
      fillCells n (index + 1)

end Building

mutual

def linksOf : Value → List Nat
  | .link n => [n]
  | .list items => linksOfItems items
  | .tuple items => linksOfItems items
  | .map entries => linksOfEntries entries
  | _ => []

def linksOfItems : List Value → List Nat
  | [] => []
  | v :: rest => linksOf v ++ linksOfItems rest

def linksOfEntries : List (Value × Value) → List Nat
  | [] => []
  | (k, v) :: rest => linksOf k ++ linksOf v ++ linksOfEntries rest

end

/-- The cells that can be reached through links. The counter bounds the steps. -/
def reached (links : Array (List Nat)) : Nat → (todo seen : List Nat) → List Nat
  | 0, _, seen => seen
  | _ + 1, [], seen => seen
  | n + 1, c :: todo, seen =>
    if seen.contains c then reached links n todo seen
    else reached links n (links[c]?.getD [] ++ todo) (c :: seen)

/-- The cells that hold themselves. -/
def knotted (cells : Array Value) : List Nat :=
  let links := cells.map linksOf
  let steps := links.foldl (fun n l => n + l.length) 1 + cells.size
  (List.range cells.size).filter fun c => (reached links steps (links[c]?.getD []) []).contains c

/-- The value of a cell, with the values of other cells in the place of the links to them; `leaf`
says which links have a value of their own. -/
def expand (cells : Array Value) (leaf : Nat → Option Value) : Nat → Nat → Value
  | 0, _ => .null
  | n + 1, c =>
    match leaf c with
    | some v => v
    | none => (cells[c]?.getD .null).mapLinks (expand cells leaf n)

def settled (cells : Array Value) (looped : Bool) (v : Value) : Value :=
  let loops := if looped then knotted cells else []
  let fuel := cells.size + 1
  let place (c : Nat) : Option Nat := loops.idxOf? c
  let inside (c : Nat) : Value :=
    (cells[c]?.getD .null).mapLinks (expand cells (fun d => (place d).map .link) fuel)
  let knots := loops.map inside
  v.mapLinks (expand cells (fun c => (place c).map (.knot knots)) fuel)

def Graph.value (g : Graph) : Except Failure Value := do
  let start : Build := { nodes := g.nodes, made := Array.replicate g.nodes.size none }
  let build : Building Value := do
    let v ← Building.valueAt g.root
    Building.fillCells (g.nodes.size + 1) 0
    return v
  let (v, b) ← build.run start
  return settled b.cells g.looped v

def load (text : List Char) : Except Failure Value := do
  match ← parse text with
  | some graph => graph.value
  | none => return .null

end Yaml

end NPlusOne
