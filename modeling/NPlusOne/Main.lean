import NPlusOne.Command
import NPlusOne.Json
import NPlusOne.Program.Exchange

namespace NPlusOne

namespace Command

partial def gather (names : List String) : IO (List (List String × Entry)) := do
  let directory ← IO.FS.realPath (FileTree.pathText names)
  let mut found := []
  for entry in ← directory.readDir do
    let here := names ++ [entry.fileName]
    try
      match (← entry.path.symlinkMetadata).type with
      | .dir => found := found ++ (here, .directory) :: (← gather here)
      | .symlink =>
        found := found ++ [(here, .link (← IO.FS.realPath entry.path).toString)]
      | .file =>
        let data ← IO.FS.readBinFile entry.path
        found := found ++ [(here, .file (.bytes data.toList))]
      | .other => pure ()
    catch _ => pure ()
  return found

def workingTree : IO FileTree := do
  let cwd := Path.steps (← IO.currentDir).toString
  let around := (List.range (cwd.length + 1)).map fun n => (cwd.take n, Entry.directory)
  return ⟨around ++ (← gather cwd), cwd⟩

/-- The time, by the stamp of a fresh file. -/
def clock : IO Moment := do
  let (_, path) ← IO.FS.createTempFile
  let stamp := (← path.metadata).modified
  IO.FS.removeFile path
  return Moment.ofEpoch stamp.sec.toNat

partial def readAll (input : IO.FS.Stream) (text : String) : IO String := do
  let line ← input.getLine
  if line.isEmpty then return text else readAll input (text ++ line)

def encode : Content → ByteArray
  | .bytes data => ⟨data.toArray⟩
  | .book sheets => ("\n".intercalate (sheets.map fun s => s.reread.plain)).toUTF8

def writeChanges (before after : FileTree) : IO Unit := do
  for (names, entry) in after.entries do
    if before.entry? names ≠ some entry then
      let path := FileTree.pathText names
      match entry with
      | .directory => IO.FS.createDirAll path
      | .file content => IO.FS.writeBinFile path (encode content)
      | .link _ => pure ()

/-- The command: it reads the parsed program from standard input, works on the files of the working
directory and prints its findings. -/
def launch (arguments : List String) : IO UInt32 := do
  let document := match Json.parse (← readAll (← IO.getStdin) "").toList with
    | .ok v => v
    | .error _ => .null
  let files ← workingTree
  let now ← clock
  let around : Surroundings :=
    { program := Exchange.program document
      level := ← IO.getEnv "QUERYLOOP_LOG_LEVEL"
      now }
  let (ending, s) := (run around arguments).run { files }
  let (_, s) := (writeLog now.text).run s
  writeChanges files s.files
  for line in s.output do
    IO.println line
  for line in s.complaints do
    IO.eprintln line
  IO.eprint (s.terminalLog now.text)
  match ending with
  | .ok (.done code) => return code.toUInt32
  | .ok (.stopped stop) =>
    IO.println CommandLine.usage
    return stop.code.toNat.toUInt32
  | .error e =>
    IO.eprintln e.message
    return 1

end Command

end NPlusOne

def main (arguments : List String) : IO UInt32 :=
  NPlusOne.Command.launch arguments
