import NPlusOne.Cmake.ListFile
import NPlusOne.Json
import NPlusOne.ShellWords

namespace NPlusOne

namespace Cmake

structure Flags where
  includes : List String := []
  defines : List String := []
  standard : Option String := none
  deriving DecidableEq, Repr

inductive Flag where
  | include (value : Option Value)
  | define (text : Option String)
  | standard (name : String)
  | other
  deriving Repr

def Flag.of (arg : Value) : Except Failure Flag :=
  match arg with
  | .text s =>
    if s = "-I" || s = "-isystem" then .ok (.include none)
    else match Text.dropLead? "-I".toList s.toList with
      | some dir => .ok (.include (some (.text (String.ofList dir))))
      | none =>
        if s = "-D" then .ok (.define none)
        else if s.startsWith "-D" then .ok (.define (some s))
        else match Text.dropLead? "-std=".toList s.toList with
          | some name => .ok (.standard (String.ofList name))
          | none => .ok .other
  | _ => .error .noMember

/-- The include directory that a value names, seen from the directory of the compilation. A path
that cannot be is passed over. -/
def includeOf (files : FileTree) (directory : String) (v : Value) :
    Except Failure (List String) := do
  if !v.isTruthy then return []
  match files.resolve (Path.below directory (← v.asText)) with
  | .error .nullInPath => return []
  | .error .notEncodable => return []
  | .error (.path _) => return []
  | .error e => throw e
  | .ok real => if ← files.isDirectory real then return [real] else return []

/-- The flags among the arguments; a flag whose value is missing takes an empty one. -/
def flagsOf (files : FileTree) (directory : String) :
    List Value → Flags → Except Failure Flags
  | [], flags => .ok flags
  | arg :: rest, flags => do
    match ← Flag.of arg with
    | .include (some v) =>
      let found ← includeOf files directory v
      flagsOf files directory rest { flags with includes := flags.includes ++ found }
    | .include none =>
      match rest with
      | [] => return flags
      | v :: rest =>
        let found ← includeOf files directory v
        flagsOf files directory rest { flags with includes := flags.includes ++ found }
    | .define (some text) =>
      flagsOf files directory rest { flags with defines := flags.defines ++ [text] }
    | .define none =>
      match rest with
      | [] => return { flags with defines := flags.defines ++ ["-D"] }
      | v :: rest =>
        let text := "-D" ++ (← v.shown)
        flagsOf files directory rest { flags with defines := flags.defines ++ [text] }
    | .standard name => flagsOf files directory rest { flags with standard := some name }
    | .other => flagsOf files directory rest flags

/-- An entry of a compilation database, and what it finds on standard input. -/
structure Compilation where
  entry : Value
  input : String

def wordsOf (line : String) : Except Failure (List Value) :=
  match shellWords line with
  | .ok words => .ok (words.map .text)
  | .error e => .error (.words e)

/-- The arguments of an entry: a list of them, or else a command line. A command that is nothing is
read from standard input. -/
def argumentsOf (c : Compilation) : Except Failure (List Value) := do
  let arguments ← c.entry.member "arguments"
  if arguments.isTruthy then arguments.parts
  else match ← c.entry.member? "command" with
    | none => return []
    | some .null => wordsOf c.input
    | some (.text line) => wordsOf line
    | some _ => throw .noMember

/-- The entry reads all that is left on standard input. -/
def takesInput (entry : Value) : Bool :=
  match entry.member "arguments", entry.member? "command" with
  | .ok arguments, .ok (some .null) => !arguments.isTruthy
  | _, _ => false

def compilations (input : String) : List Value → List Compilation
  | [] => []
  | entry :: rest => ⟨entry, input⟩ :: compilations (if takesInput entry then "" else input) rest

def sourceOf (files : FileTree) (directory : String) (entry : Value) :
    Except Failure (List String) := do
  let file ← entry.member "file"
  if !file.isTruthy then return []
  let real ← files.resolve (Path.below directory (← file.asText))
  if ← files.isPresent real then return [real] else return []

/-- Adds what one entry says; of several standards the last one counts. -/
def addEntry (files : FileTree) (home : String) (p : CmakeProject) (c : Compilation) :
    Except Failure CmakeProject := do
  let given ← c.entry.member "directory"
  let directory ← if given.isTruthy then Path.tidy <$> given.asText else pure home
  let flags ← flagsOf files directory (← argumentsOf c) {}
  let source ← sourceOf files directory c.entry
  return { p with
    includePaths := p.includePaths ++ flags.includes
    compilerArgs := p.compilerArgs ++ flags.defines
    sourceFiles := p.sourceFiles ++ source
    standard := match flags.standard with
      | some name => if name = "" then p.standard else some name
      | none => p.standard }

def settle (p : CmakeProject) : CmakeProject :=
  { p with
    includePaths := sortUnique p.includePaths
    compilerArgs := sortUnique p.compilerArgs
    sourceFiles := sortUnique p.sourceFiles
    sourceDirectories := sortUnique (p.sourceFiles.map Path.parent) }

def buildDirectories : List String :=
  ["build", "cmake-build-debug", "cmake-build-release", "out/build", "."]

def findDatabase (files : FileTree) (root : String) : List String → Except Failure (Option String)
  | [] => .ok none
  | dir :: rest => do
    let path := Path.below (Path.below root dir) "compile_commands.json"
    if ← files.isPresent path then return some path
    findDatabase files root rest

variable {σ : Type} [HasLog σ]

/-- The document of a compilation database; one that is none leaves an error in the log. -/
def readDatabase (files : FileTree) (path : String) : Task σ (Option Value) := do
  let failed (reason : String) : Task σ (Option Value) := do
    Log.write .error .build s!"Failed to parse compile_commands.json: {reason}"
    return none
  match files.read path with
  | .error (.path e) => failed e.describe
  | .error e => throw e
  | .ok data =>
    match Utf8.decode? data with
    | none => throw .badEncoding
    | some text =>
      match Json.parse text with
      | .ok v => return some v
      | .error .malformed => failed "not a JSON document"
      | .error (.tooManyDigits n) => throw (.tooManyDigits (some n))
      | .error (.tooDeep isMap) => throw (.documentTooDeep isMap)

def ofDatabase (files : FileTree) (input path : String) : Task σ CmakeProject := do
  match ← readDatabase files path with
  | none => return {}
  | some document =>
    let entries ← Task.ofExcept document.parts
    let p ← Task.ofExcept
      ((compilations input entries).foldlM (addEntry files (Path.parent path)) {})
    let p := settle p
    Log.write .info .build <|
      s!"Extracted from compile_commands.json: {p.sourceFiles.length} source files, " ++
      s!"{p.includePaths.length} include paths, {p.compilerArgs.length} definitions"
    return p

/-- The project in a directory: from its compilation database, or without one from its list files.
Some databases leave commands to standard input. -/
def discover (files : FileTree) (input directory : String) : Task σ CmakeProject := do
  let root ← Task.ofExcept (files.resolve directory)
  match ← Task.ofExcept (findDatabase files root buildDirectories) with
  | some path =>
    Log.write .info .build s!"Using compile_commands.json: {path}"
    ofDatabase files input path
  | none =>
    Log.write .info .build "Parsing CMakeLists.txt statically"
    ofListFiles files root

end Cmake

end NPlusOne
