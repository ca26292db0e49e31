import NPlusOne.Yaml.Plain
import NPlusOne.Yaml.Scan

namespace NPlusOne

namespace Yaml

/-- A node of a document; its tag says what it is. Nodes know each other by their numbers, for a
node may stand in several places, even inside itself. -/
inductive Node where
  | scalar (tag text : String)
  | sequence (tag : String) (items : List Nat)
  | mapping (tag : String) (entries : List (Nat × Nat))
  deriving DecidableEq, Repr

namespace Node

def tag : Node → String
  | scalar tag _ => tag
  | sequence tag _ => tag
  | mapping tag _ => tag

def withTag (tag : String) : Node → Node
  | scalar _ text => scalar tag text
  | sequence _ items => sequence tag items
  | mapping _ entries => mapping tag entries

end Node

/-- A document: its nodes and the number of the outermost one. The flag tells that some node may
stand inside itself. -/
structure Graph where
  nodes : Array Node
  root : Nat
  looped : Bool

/-- What has been read: the scan, the nodes, the ones that have a name, those that are still open,
and whether a name of an open one was used. -/
structure ParseState where
  scan : ScanState
  nodes : Array Node := #[]
  anchors : List (String × Nat) := []
  opened : List Nat := []
  looped : Bool := false

abbrev Parse (α : Type) : Type := StateT ParseState (Except Failure) α

namespace Parse

def fail {α : Type} : Parse α := throw .notYaml

def ofScan {α : Type} (step : Scan α) : Parse α := do
  let s ← get
  let (a, scan) ← step.run s.scan
  set { s with scan }
  return a

def peek : Parse (Option Token) := ofScan Scan.peek

/-- The next token is one of these; the end of the document is none. -/
def sees (ts : List Token) : Parse Bool := do
  match ← peek with
  | some t => return ts.contains t
  | none => return false

def drop : Parse Unit := ofScan Scan.drop

def accept (t : Token) : Parse Bool := do
  if ← sees [t] then
    drop
    return true
  return false

def expect (t : Token) : Parse Unit := do
  if !(← accept t) then fail

def add (node : Node) : Parse Nat := do
  let s ← get
  set { s with nodes := s.nodes.push node }
  return s.nodes.size

def empty : Parse Nat := add (.scalar (coreTag "null") "")

abbrev Handles := List (String × String)

def defaultHandles : Handles :=
  [("!", "!"), ("!!", coreTag "")]

/-- What stands before a node: its name, and its tag as it is written. -/
structure Properties where
  anchor : Option String := none
  tag : Option (Option String × String) := none

def anchorProperty : Parse (Option String) := do
  match ← peek with
  | some (.anchor name) =>
    drop
    return some name
  | _ => return none

def tagProperty : Parse (Option (Option String × String)) := do
  match ← peek with
  | some (.tag handle suffix) =>
    drop
    return some (handle, suffix)
  | _ => return none

def properties : Parse Properties := do
  match ← anchorProperty with
  | some anchor => return { anchor := some anchor, tag := ← tagProperty }
  | none =>
    let tag ← tagProperty
    let anchor ← if tag.isSome then anchorProperty else pure none
    return { anchor, tag }

/-- The full tag of a node; a lone exclamation mark says nothing. -/
def fullTag (handles : Handles) : Option (Option String × String) → Parse (Option String)
  | none => return none
  | some (none, suffix) => return some suffix
  | some (some handle, suffix) =>
    match handles.lookup handle with
    | some lead => return some (lead ++ suffix)
    | none => fail

def collectionTag (tag : Option String) (core : String) : String :=
  match tag with
  | none => coreTag core
  | some "!" => coreTag core
  | some t => t

/-- The tag of a text. Only what is not in quotation marks can stand for something else, unless the
tag is a lone exclamation mark. -/
def scalarTag (tag : Option String) (text : String) (isPlain : Bool) : String :=
  match tag with
  | none => if isPlain then plainTag text.toList else coreTag "str"
  | some "!" => plainTag text.toList
  | some t => t

/-- Adds a node under a name, if it has one; a name is given once. -/
def addNamed (anchor : Option String) (node : Node) : Parse Nat := do
  match anchor with
  | none => add node
  | some a =>
    if ((← get).anchors.lookup a).isSome then fail
    let id ← add node
    modify fun s => { s with anchors := (a, id) :: s.anchors }
    return id

/-- How often lists and maps may stand inside each other. -/
def maxDepth : Nat := 485

def enclose (anchor : Option String) (start : Node) (parts : Parse Node) : Parse Nat := do
  let id ← addNamed anchor start
  if maxDepth ≤ (← get).opened.length then throw .tooDeep
  modify fun s => { s with opened := id :: s.opened }
  let node ← parts
  modify fun s => { s with nodes := s.nodes.set! id node, opened := s.opened.tail }
  return id

def named (a : String) : Parse Nat := do
  let s ← get
  match s.anchors.lookup a with
  | some id =>
    if s.opened.contains id then set { s with looped := true }
    return id
  | none => fail

/-- How a node may begin: as a block, as the items of a list without a block of their own, or in
flow style only. -/
inductive Style where
  | block
  | blockOrItems
  | flow
  deriving DecidableEq, Repr

mutual

/-- A node. The counter bounds the steps. -/
def node (handles : Handles) (style : Style) : Nat → Parse Nat
  | 0 => fail
  | n + 1 => do
    match ← peek with
    | some (.alias a) =>
      drop
      named a
    | _ =>
      let props ← properties
      content handles style props.anchor (← fullTag handles props.tag) n

def content (handles : Handles) (style : Style) (anchor tag : Option String) : Nat → Parse Nat
  | 0 => fail
  | n + 1 => do
    let sequence (items : Parse (List Nat)) : Parse Nat :=
      let tag := collectionTag tag "seq"
      enclose anchor (.sequence tag []) do return .sequence tag (← items)
    let mapping (entries : Parse (List (Nat × Nat))) : Parse Nat :=
      let tag := collectionTag tag "map"
      enclose anchor (.mapping tag []) do return .mapping tag (← entries)
    let inBlock := style ≠ .flow
    match ← peek with
    | some (.scalar text isPlain) =>
      drop
      addNamed anchor (.scalar (scalarTag tag text isPlain) text)
    | some .flowSequenceStart =>
      sequence do
        drop
        flowItems handles true n
    | some .flowMappingStart =>
      mapping do
        drop
        flowEntries handles true n
    | t =>
      if style = .blockOrItems && t = some .blockEntry then
        sequence (looseItems handles n)
      else if inBlock && t = some .blockSequenceStart then
        sequence do
          drop
          blockItems handles n
      else if inBlock && t = some .blockMappingStart then
        mapping do
          drop
          blockEntries handles n
      else if anchor.isSome || tag.isSome then
        addNamed anchor (.scalar (scalarTag tag "" true) "")
      else fail

def blockItems (handles : Handles) : Nat → Parse (List Nat)
  | 0 => fail
  | n + 1 => do
    if ← accept .blockEntry then
      let item ← if ← sees [.blockEntry, .blockEnd] then empty else node handles .block n
      return item :: (← blockItems handles n)
    else
      expect .blockEnd
      return []

/-- The items of a list that stands at the indentation of its key. -/
def looseItems (handles : Handles) : Nat → Parse (List Nat)
  | 0 => fail
  | n + 1 => do
    if ← accept .blockEntry then
      let item ← if ← sees [.blockEntry, .key, .value, .blockEnd] then empty
        else node handles .block n
      return item :: (← looseItems handles n)
    else return []

def blockEntries (handles : Handles) : Nat → Parse (List (Nat × Nat))
  | 0 => fail
  | n + 1 => do
    if ← accept .key then
      let part : Parse Nat := do
        if ← sees [.key, .value, .blockEnd] then empty
        else node handles .blockOrItems n
      let key ← part
      let value ← if ← accept .value then part else empty
      return (key, value) :: (← blockEntries handles n)
    else
      expect .blockEnd
      return []

/-- The items of a list in brackets; an item with a colon is a map of one entry. -/
def flowItems (handles : Handles) (first : Bool) : Nat → Parse (List Nat)
  | 0 => fail
  | n + 1 => do
    if ← accept .flowSequenceEnd then return []
    if !first then expect .flowEntry
    if ← sees [.key] then
      let part (ends : List Token) : Parse Nat := do
        if ← sees ends then empty
        else node handles .flow n
      let item ← enclose none (.mapping (coreTag "map") []) do
        drop
        let key ← part [.value, .flowEntry, .flowSequenceEnd]
        let value ← if ← accept .value then part [.flowEntry, .flowSequenceEnd] else empty
        return .mapping (coreTag "map") [(key, value)]
      return item :: (← flowItems handles false n)
    else if ← accept .flowSequenceEnd then return []
    else
      let item ← node handles .flow n
      return item :: (← flowItems handles false n)

def flowEntries (handles : Handles) (first : Bool) : Nat → Parse (List (Nat × Nat))
  | 0 => fail
  | n + 1 => do
    if ← accept .flowMappingEnd then return []
    if !first then expect .flowEntry
    if ← accept .key then
      let part (ends : List Token) : Parse Nat := do
        if ← sees ends then empty
        else node handles .flow n
      let key ← part [.value, .flowEntry, .flowMappingEnd]
      let value ← if ← accept .value then part [.flowEntry, .flowMappingEnd] else empty
      return (key, value) :: (← flowEntries handles false n)
    else if ← accept .flowMappingEnd then return []
    else
      let key ← node handles .flow n
      return (key, ← empty) :: (← flowEntries handles false n)

end

/-- Takes the directives of a document. The version is given at most once and is 1; a handle is
given at most once. -/
def directives : Nat → (version : Bool) → Handles → Parse Handles
  | 0, _, _ => fail
  | n + 1, version, handles => do
    match ← peek with
    | some (.directive d) =>
      drop
      match d with
      | .version major _ => if version || major ≠ 1 then fail else directives n true handles
      | .tag handle lead =>
        if (handles.lookup handle).isSome then fail
        else directives n version ((handle, lead) :: handles)
      | .other => directives n version handles
    | _ => return handles ++ defaultHandles

def skipDocumentEnds : Nat → Parse Unit
  | 0 => fail
  | n + 1 => do
    if ← accept .documentEnd then skipDocumentEnds n

/-- The one document of a text; there may be none, and there must not be two. -/
def document : Parse (Option Nat) := do
  let bound := 16 * (← get).scan.input.rest.length + 64
  match ← peek with
  | none => return none
  | some t =>
    let starts := match t with
      | .directive _ => true
      | .documentStart => true
      | _ => false
    let root ←
      if starts then do
        let handles ← directives bound false []
        expect .documentStart
        match ← peek with
        | none => empty
        | some (.directive _) => empty
        | some .documentStart => empty
        | some .documentEnd => empty
        | some _ => node handles .block bound
      else node defaultHandles .block bound
    skipDocumentEnds bound
    if (← peek).isSome then
      let _ ← directives bound false []
      fail
    return some root

end Parse

def parse (text : List Char) : Except Failure (Option Graph) := do
  let (root, s) ← Parse.document.run { scan := ← startScan text }
  return root.map fun root => { nodes := s.nodes, root, looped := s.looped }

end Yaml

end NPlusOne
