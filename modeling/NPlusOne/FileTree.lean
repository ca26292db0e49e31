import NPlusOne.Log
import NPlusOne.Path
import NPlusOne.Text.Quoted
import NPlusOne.Workbook.Sheet

namespace NPlusOne

/-- What a file holds: bytes, or a workbook before its encoding. -/
inductive Content where
  | bytes (data : List UInt8)
  | book (sheets : List Sheet)
  deriving DecidableEq, Repr

inductive Entry where
  | directory
  | file (content : Content)
  | link (target : String)
  deriving DecidableEq, Repr

/-- A tree of files. Every entry is listed under the names that lead to it from the root; a name
of the tree is never a link further down. `cwd` is the working directory. -/
structure FileTree where
  entries : List (List String × Entry)
  cwd : List String := []
  deriving Repr

namespace FileTree

def empty : FileTree := ⟨[([], .directory)], []⟩

def pathText (names : List String) : String :=
  "/" ++ "/".intercalate names

def cwdText (t : FileTree) : String :=
  pathText t.cwd

def entry? (t : FileTree) (names : List String) : Option Entry :=
  (t.entries.find? (·.1 = names)).map Prod.snd

def isDirectoryEntry (t : FileTree) (names : List String) : Bool :=
  t.entry? names = some .directory

def absolute (t : FileTree) (p : String) : String :=
  Path.absolute t.cwdText p

def put (t : FileTree) (names : List String) (e : Entry) : FileTree :=
  { t with entries := t.entries.filter (·.1 ≠ names) ++ [(names, e)] }

def erase (t : FileTree) (names : List String) : FileTree :=
  { t with entries := t.entries.filter (·.1 ≠ names) }

def names (t : FileTree) (dir : List String) : List String :=
  t.entries.filterMap fun (key, _) =>
    match key.getLast? with
    | some name => if key.dropLast = dir then some name else none
    | none => none

def nameFits (name : String) : Bool :=
  name.utf8ByteSize ≤ 255

/-- Where a path leads: to an entry, or to a free name in a directory. -/
inductive Spot where
  | taken (names : List String) (entry : Entry)
  | free (names : List String)
  deriving DecidableEq, Repr

/-- The most links that are followed on the way. -/
def maxLinks : Nat := 40

/-- How the end of a path is taken: a link there may be followed or not, and a name that may be made
must not be written like that of a directory. -/
inductive Ending where
  | entry
  | target
  | making
  deriving DecidableEq, Repr

/-- Works off the pieces of a path from the directory `here`; `follow` goes on behind a link. A path
may end at a name that is free. -/
def walkPieces (t : FileTree) (ending : Ending)
    (follow : List String → List String → Except PathError Spot) (here : List String) :
    List String → Except PathError Spot
  | [] =>
    match t.entry? here with
    | some e => .ok (.taken here e)
    | none => .error .notFound
  | piece :: rest =>
    if !t.isDirectoryEntry here then
      if (t.entry? here).isSome then .error .notDirectory else .error .notFound
    else if piece = "" || piece = "." then t.walkPieces ending follow here rest
    else if piece = ".." then t.walkPieces ending follow here.dropLast rest
    else if !nameFits piece then .error .nameTooLong
    else if ending = .making && !rest.isEmpty && rest.all (· = "") then .error .isDirectory
    else
      match t.entry? (here ++ [piece]) with
      | none => if rest.isEmpty then .ok (.free (here ++ [piece])) else .error .notFound
      | some (.link target) =>
        if rest.isEmpty && ending = .entry then .ok (.taken (here ++ [piece]) (.link target))
        else
          let start := if Path.isAbsolute target then [] else here
          follow start (Path.pieces target ++ rest)
      | some _ => t.walkPieces ending follow (here ++ [piece]) rest

def walk (t : FileTree) (ending : Ending) : (links : Nat) → List String → List String →
    Except PathError Spot
  | 0 => t.walkPieces ending fun _ _ => .error .tooManyLinks
  | links + 1 => t.walkPieces ending (t.walk ending links)

def locate (t : FileTree) (ending : Ending) (p : String) : Except PathError Spot :=
  if p = "" then .error .notFound
  else if 4096 ≤ p.utf8ByteSize then .error .nameTooLong
  else t.walk ending maxLinks (if Path.isAbsolute p then [] else t.cwd) (Path.pieces p)

/-- The entry at a path, behind all links. -/
def look (t : FileTree) (p : String) : Except PathError (List String × Entry) :=
  match t.locate .target p with
  | .ok (.taken names e) => .ok (names, e)
  | .ok (.free _) => .error .notFound
  | .error e => .error e

def hasNull (p : String) : Bool :=
  '\x00' ∈ p.toList

/-- A path can be asked for if it is a file name without null characters. -/
def isAskable (p : String) : Bool :=
  Text.isFileName p && !hasNull p

def checkPath (p : String) : Except Failure Unit :=
  if !Text.isFileName p then .error .notEncodable
  else if hasNull p then .error .nullInPath
  else .ok ()

/-- The errors that only mean that there is nothing at a path. -/
def meansAbsent : PathError → Bool
  | .nameTooLong => false
  | _ => true

/-- What a test says of the entry that is there; a path that is too long to ask for is refused. -/
def asks (t : FileTree) (test : Entry → Bool) (p : String) : Except Failure Bool :=
  if !isAskable p then .ok false
  else match t.look p with
    | .ok (_, e) => .ok (test e)
    | .error e => if meansAbsent e then .ok false else .error (.path e)

def isPresent (t : FileTree) (p : String) : Except Failure Bool :=
  t.asks (fun _ => true) p

def isDirectory (t : FileTree) (p : String) : Except Failure Bool :=
  t.asks (· = .directory) p

/-- Something is there; whatever is wrong with the path, there is nothing. -/
def contains (t : FileTree) (p : String) : Bool :=
  isAskable p && (t.look p).isOk

def linkAt? (t : FileTree) (p : String) : Option String :=
  match t.locate .entry p with
  | .ok (.taken _ (.link target)) => some target
  | _ => none

def containsLink (t : FileTree) (p : String) : Bool :=
  isAskable p && match t.locate .entry p with
    | .ok (.taken _ _) => true
    | _ => false

def holdsDirectory (t : FileTree) (p : String) : Bool :=
  isAskable p && match t.look p with
    | .ok (_, e) => e = .directory
    | .error _ => false

def read (t : FileTree) (p : String) : Except Failure (List UInt8) := do
  checkPath p
  match t.look p with
  | .ok (_, .file (.bytes data)) => return data
  | .ok (_, .file (.book _)) => return []
  | .ok (_, .directory) => throw (.path .isDirectory)
  | .ok (_, .link _) => throw (.path .tooManyLinks)
  | .error e => throw (.path e)

/-- The place where a file is written: an existing file or a free name. -/
def writable (t : FileTree) (p : String) : Except Failure (List String) := do
  checkPath p
  match t.locate .making p with
  | .ok (.taken names (.file _)) => return names
  | .ok (.taken _ _) => throw (.path .isDirectory)
  | .ok (.free names) => return names
  | .error e => throw (.path e)

def write (t : FileTree) (p : String) (content : Content) : Except Failure FileTree := do
  let names ← t.writable p
  return t.put names (.file content)

def append (t : FileTree) (p : String) (data : List UInt8) : Except Failure FileTree := do
  let names ← t.writable p
  let old := match t.entry? names with
    | some (.file (.bytes old)) => old
    | _ => []
  return t.put names (.file (.bytes (old ++ data)))

def makeDirectory (t : FileTree) (p : String) : Except PathError FileTree :=
  match t.locate .entry p with
  | .ok (.taken _ _) => .error .alreadyExists
  | .ok (.free names) => .ok (t.put names .directory)
  | .error e => .error e

/-- Makes the directory with the given steps and, from the outermost, those around it. What is
already a directory is left alone. -/
def makeSteps (t : FileTree) (root : String) : (fuel : Nat) → List String → Except Failure FileTree
  | 0, _ => .error (.path .notFound)
  | fuel + 1, steps =>
    let p := Path.assemble root steps
    let failed (e : PathError) : Except Failure FileTree := do
      if ← t.isDirectory p then return t else throw (.path e)
    match t.makeDirectory p with
    | .ok t => .ok t
    | .error .notFound =>
      if steps.isEmpty then .error (.path .notFound)
      else match t.makeSteps root fuel steps.dropLast with
        | .error e => .error e
        | .ok u =>
          match u.makeDirectory p with
          | .ok u => .ok u
          | .error e => do
            if ← u.isDirectory p then return u else throw (.path e)
    | .error e => failed e

def makeDirectories (t : FileTree) (p : String) : Except Failure FileTree := do
  checkPath p
  t.makeSteps (Path.root p) ((Path.steps p).length + 1) (Path.steps p)

end FileTree

structure Workspace where
  files : FileTree
  log : Log := #[]

instance : HasLog Workspace where
  append entry w := { w with log := w.log.push entry }

namespace Workspace

def change (f : FileTree → Except Failure FileTree) : Task Workspace Unit := do
  let files ← Task.ofExcept (f (← get).files)
  modify fun w => { w with files }

def makeParent (path : String) : Task Workspace Unit :=
  change fun files => files.makeDirectories (Path.parent path)

def write (path : String) (content : Content) : Task Workspace Unit :=
  change fun files => files.write path content

end Workspace

end NPlusOne
