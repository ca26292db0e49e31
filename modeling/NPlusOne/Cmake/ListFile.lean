import NPlusOne.FileTree.Glob
import NPlusOne.Text.LetterCase
import NPlusOne.Text.Lines
import NPlusOne.Text.Utf8
import NPlusOne.Text.WordChar

namespace NPlusOne

structure CmakeProject where
  includePaths : List String := []
  sourceDirectories : List String := []
  sourceFiles : List String := []
  compilerArgs : List String := []
  standard : Option String := none
  name : Option String := none
  deriving DecidableEq, Repr

namespace Cmake

/-- The directory that a path leads to, without links; there is none where nothing or no directory
is. A link that leads back to itself is refused. -/
def directory? (files : FileTree) (path : String) : Except Failure (Option String) := do
  let real ← files.resolve path
  if ← files.isDirectory real then return some real else return none

def word? : (word text : List Char) → Option (List Char)
  | [], text => some text
  | _ :: _, [] => none
  | a :: word, b :: text => if Text.fold a = Text.fold b then word? word text else none

def skipBlanks (text : List Char) : List Char :=
  text.dropWhile Text.isBlank

def command? (name : String) (text : List Char) : Option (List Char) := do
  match skipBlanks (← word? name.toList text) with
  | '(' :: rest => some rest
  | _ => none

/-- The characters up to the first that `p` refuses; there is at least one. -/
def takeSome (p : Char → Bool) (text : List Char) : Option (List Char × List Char) :=
  match text.span p with
  | ([], _) => none
  | found => some found

/-- What stands before the closing parenthesis; there is at least one character. -/
def enclosed? (text : List Char) : Option (List Char × List Char) := do
  match ← takeSome (· ≠ ')') text with
  | (inside, _ :: rest) => some (inside, rest)
  | (_, []) => none

def first? {α : Type} (find : List Char → Option α) : List Char → Option α
  | [] => find []
  | c :: text => (find (c :: text)).or (first? find text)

/-- All that is found in the text, from the left and without overlaps. The counter bounds the
steps. -/
def allFuel {α : Type} (find : List Char → Option (α × List Char)) : Nat → List Char → List α
  | 0, _ => []
  | _ + 1, [] => []
  | n + 1, c :: text =>
    match find (c :: text) with
    | some (a, rest) => a :: allFuel find n rest
    | none => allFuel find n text

def all {α : Type} (find : List Char → Option (α × List Char)) (text : List Char) : List α :=
  allFuel find text.length text

def projectName? (text : List Char) : Option String :=
  text |> first? fun text => do
    let rest ← command? "project" text
    let (name, _) ← takeSome Text.isWordChar (skipBlanks rest)
    return String.ofList name

def standard? (text : List Char) : Option String :=
  text |> first? fun text => do
    let rest ← command? "set" text
    let rest ← word? "CMAKE_CXX_STANDARD".toList (skipBlanks rest)
    let (_, rest) ← takeSome Text.isBlank rest
    let (digits, rest) ← takeSome Text.isDigit rest
    match skipBlanks rest with
    | ')' :: _ => some ("c++" ++ String.ofList digits)
    | _ => none

def subdirectories (text : List Char) : List (List Char) :=
  text |> all fun text => do
    let rest ← command? "add_subdirectory" text
    takeSome (fun c => !Text.isBlank c && c ≠ ')') (skipBlanks rest)

/-- A command with its arguments. One for a single target has the target's name in front of
them. -/
structure Command where
  forTarget : Bool
  arguments : List Char
  deriving DecidableEq, Repr

def Command.operands (c : Command) : List Char :=
  if c.forTarget then Text.afterFirstWord (Text.trim c.arguments) else c.arguments

def commandNamed? (forTarget : Bool) (name : String) (text : List Char) :
    Option (Command × List Char) := do
  let (arguments, rest) ← enclosed? (← command? name text)
  return (⟨forTarget, arguments⟩, rest)

def eitherCommand? (names : List String) (text : List Char) : Option (Command × List Char) :=
  let forTarget := names.findSome? fun name => commandNamed? true ("target_" ++ name) text
  forTarget.or (names.findSome? fun name => commandNamed? false name text)

def includeCommands (text : List Char) : List Command :=
  all (eitherCommand? ["include_directories"]) text

def definitionCommands (text : List Char) : List Command :=
  all (eitherCommand? ["add_compile_definitions", "compile_definitions"]) text

def rootVariables : List String :=
  ["CMAKE_SOURCE_DIR", "PROJECT_SOURCE_DIR"]

def currentVariables : List String :=
  ["CMAKE_CURRENT_SOURCE_DIR", "CMAKE_CURRENT_LIST_DIR"]

def reference (name : String) : List Char :=
  '$' :: '\x7b' :: (name.toList ++ ['\x7d'])

/-- Writes the two directories for their variables; other variables stay. -/
def expand (root base : String) (text : List Char) : List Char :=
  let put (value : String) (text : List Char) (name : String) : List Char :=
    Text.replace (reference name) value.toList text
  currentVariables.foldl (put base) (rootVariables.foldl (put root) text)

def keywords : List String :=
  ["PUBLIC", "PRIVATE", "INTERFACE", "SYSTEM", "BEFORE", "AFTER"]

/-- The arguments in a text: its words without quotation marks around them. Keywords and what
begins with an unknown variable are left out. -/
def operandsIn (text : List Char) : List String :=
  ((Text.words text).map fun word =>
    String.ofList (Text.trimBoth (fun c => c = '"' || c = '\'') word)).filter fun item =>
      item ≠ "" && !item.startsWith "$" && !keywords.contains item

def definitionsIn (text : List Char) : List String :=
  (operandsIn text).map fun item => if item.startsWith "-D" then item else "-D" ++ item

variable {σ : Type} [HasLog σ]

def passOver (item : String) (e : Failure) : Task σ (List String) := do
  Log.write .debug .build s!"Failed to resolve path {item}: {e.message}"
  return []

/-- The directory that a path was resolved to; a path that cannot be is passed over. -/
def takeDirectory (files : FileTree) (item : String) : Except Failure String → Task σ (List String)
  | .ok real => do if ← Task.ofExcept (files.isDirectory real) then return [real] else return []
  | .error .nullInPath => passOver item .nullInPath
  | .error .notEncodable => passOver item .notEncodable
  | .error e => throw e

def existingDirectories (files : FileTree) (base : String) (items : List String) :
    Task σ (List String) := do
  let found ← items.mapM fun item =>
    takeDirectory files item (files.resolve (Path.below base item))
  return found.flatten

def directoriesIn (files : FileTree) (root base : String) (text : List Char) :
    Task σ (List String) :=
  existingDirectories files base (operandsIn (expand root base text))

def addCommands (files : FileTree) (root base : String) (text : List Char) (p : CmakeProject) :
    Task σ CmakeProject := do
  let includes ← (includeCommands text).mapM fun c => directoriesIn files root base c.operands
  let defines := (definitionCommands text).flatMap fun c => definitionsIn c.operands
  return { p with
    includePaths := p.includePaths ++ includes.flatten
    compilerArgs := p.compilerArgs ++ defines }

/-- The text of a list file, whatever its bytes are; a file that is not there has none, and one that
cannot be read leaves a warning. -/
def readListFile (files : FileTree) (path : String) : Task σ (Option (List Char)) := do
  if !(← Task.ofExcept (files.isPresent path)) then return none
  match files.read path with
  | .ok data => return some (Text.unifyNewlines (Utf8.decodeDropping data))
  | .error (.path e) =>
    let quoted := Text.quote path
    Log.write .warning .build s!"Failed to read {path}: {e.describe}: {quoted}"
    return none
  | .error e => throw e

def listFileName : String := "CMakeLists.txt"

def addSubdirectories (files : FileTree) (root : String) :
    List String → CmakeProject → Task σ CmakeProject
  | [], p => return p
  | dir :: rest, p => do
    match ← readListFile files (Path.below dir listFileName) with
    | none => addSubdirectories files root rest p
    | some text => addSubdirectories files root rest (← addCommands files root dir text p)

def usualDirectories : List String :=
  ["src", "source", "lib"]

def firstDirectory (files : FileTree) (root : String) : List String → Except Failure (List String)
  | [] => .ok []
  | dir :: rest => do
    let path := Path.below root dir
    if ← files.isDirectory path then return [← files.resolve path]
    firstDirectory files root rest

def subdirectoryPaths (root : String) (text : List Char) : List String :=
  (subdirectories text).map fun dir =>
    Path.below root (String.ofList (Text.trimBoth (fun c => c = '"' || c = '\'') dir))

/-- The directories of the sources: those that were added, or else a usual one. -/
def sourceDirectories (files : FileTree) (root : String) (dirs : List String) :
    Except Failure (List String) :=
  if dirs.isEmpty then firstDirectory files root usualDirectories else .ok dirs

def ofRootFile (files : FileTree) (root : String) (text : List Char) : Task σ CmakeProject := do
  let p ← addCommands files root root text { name := projectName? text, standard := standard? text }
  let found ← Task.ofExcept ((subdirectoryPaths root text).mapM (directory? files))
  let p ← addSubdirectories files root (found.filterMap id) p
  let dirs ← Task.ofExcept (sourceDirectories files root (found.filterMap id))
  let p := { p with
    includePaths := p.includePaths.eraseDups
    sourceDirectories := dirs.eraseDups
    compilerArgs := p.compilerArgs.eraseDups }
  Log.write .info .build <|
    s!"Extracted from CMakeLists.txt: {p.includePaths.length} include paths, " ++
    s!"{p.sourceDirectories.length} source directories, {p.compilerArgs.length} definitions"
  return p

def ofListFiles (files : FileTree) (root : String) : Task σ CmakeProject := do
  let path := Path.below root listFileName
  if !(← Task.ofExcept (files.isPresent path)) then
    Log.write .warning .build s!"CMakeLists.txt not found at {path}"
    return {}
  match ← readListFile files path with
  | none => return {}
  | some text => ofRootFile files root text

end Cmake

end NPlusOne
