import NPlusOne.FileTree.Glob
import NPlusOne.FrontEnd

namespace NPlusOne

/-- The parser's library as the system offers it: the first attempts to open it may fail. -/
structure Library where
  loaded : Bool := false
  failures : Nat := 0
  reason : String := "no library"
  deriving Repr

structure LibraryState where
  attempts : Nat := 0
  directories : List String := []
  log : Log := #[]

instance : HasLog LibraryState where
  append entry s := { s with log := s.log.push entry }

namespace Library

/-- The places of the library that are tried when it is not at hand. -/
def searchPatterns : List String :=
  ["/usr/lib/llvm-*/lib", "/usr/lib64/llvm*/lib64", "/usr/local/opt/llvm/lib",
    "/opt/homebrew/opt/llvm/lib", "C:\\Program Files\\LLVM\\bin"]

def attempt (l : Library) : Task LibraryState Unit := do
  let s ← get
  set { s with attempts := s.attempts + 1 }
  if s.attempts < l.failures then throw (.library l.reason)

def choose (directory : String) : Task LibraryState Unit :=
  modify fun s => { s with directories := s.directories ++ [directory] }

def isHome (files : FileTree) (directory : String) : Bool :=
  (files.listing (Path.tidy directory)).any (·.startsWith "libclang")

/-- The directories that match a pattern, the last ones first. -/
def matching (files : FileTree) (pattern : String) : List String :=
  (files.glob pattern).mergeSort fun a b => decide (b ≤ a)

def home? (files : FileTree) (patterns : List String) : Option String :=
  (patterns.flatMap (matching files)).find? (isHome files)

/-- Finds the library, unless it is loaded or its directory is given. -/
def find (l : Library) (files : FileTree) (patterns : List String) (given : Option String) :
    Task LibraryState Unit := do
  if l.loaded then return
  match given with
  | some directory => choose directory
  | none =>
    match ← Task.attempt l.attempt with
    | .ok () => Log.write .debug .frontEnd "libclang loaded successfully from pip package"
    | .error e =>
      match home? files patterns with
      | some directory =>
        choose directory
        Log.write .info .frontEnd s!"Using libclang from: {directory}"
      | none => throw (.parse (.noLibrary e.message))

def start (l : Library) (files : FileTree) (patterns : List String) (given : Option String)
    (options : CompilerOptions) : Task LibraryState CompilerOptions := do
  l.find files patterns given
  l.attempt
  Task.apart (fun s => { log := s.log }) (fun (c : UnitCache) s => { s with log := c.log })
    (FrontEnd.start options)

end Library

end NPlusOne
