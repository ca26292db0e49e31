import NPlusOne.FileTree
import NPlusOne.Log.Layout
import NPlusOne.Text.LetterCase
import NPlusOne.Value

namespace NPlusOne

namespace Log

/-- The log as it is shown: records below the threshold are left out, the others are laid out line
by line for the terminal and, where one is named, for a file. -/
structure Sink where
  threshold : Int
  layout : Layout
  file : Option String := none
  deriving Repr

def silentThreshold : Int := Level.warning.weight

/-- The threshold that a name in capitals stands for. A name that is none of them stands for the
usual threshold. -/
def thresholdOf (name : String) : Except Failure Int :=
  match name with
  | "NOTSET" => .ok 0
  | "DEBUG" => .ok 10
  | "INFO" => .ok 20
  | "WARNING" => .ok 30
  | "WARN" => .ok 30
  | "ERROR" => .ok 40
  | "CRITICAL" => .ok 50
  | "FATAL" => .ok 50
  | "BASIC_FORMAT" => .error (.unknownLevel (Text.quote "%(levelname)s:%(name)s:%(message)s"))
  | "_STYLES" => .error .wrongKind
  | _ => .ok 20

namespace Sink

def layoutOf (v : Value) : Except Failure Layout := do
  Layout.ofText (← if v.isTruthy then v.asText else .ok Layout.usual)

/-- Makes the log file, with the directories around it, unless it is there. -/
def makeFile (v : Value) : Task Workspace (Option String) := do
  if !v.isTruthy then return none
  let path := Path.tidy (← Task.ofExcept v.asText)
  Workspace.makeParent path
  let path := (← get).files.absolute path
  Workspace.change fun files => files.append path []
  return some path

/-- Opens the log. The layout is looked at before the file is made, and the level after it. -/
def make (level file layout : Value) : Task Workspace Sink := do
  let name ← Task.ofExcept level.shown
  let layout ← Task.ofExcept (layoutOf layout)
  let file ← makeFile file
  let threshold ← Task.ofExcept (thresholdOf (Text.upper name))
  return { threshold, layout, file }

def shows (s : Sink) (r : Record) : Bool :=
  decide (s.threshold ≤ r.level.weight)

def lines (s : Sink) (time : String) (records : List Record) : List String :=
  (records.filter s.shows).filterMap fun r => (s.layout.write time r).map fun line => line ++ "\n"

def text (s : Sink) (time : String) (records : List Record) : String :=
  String.join (s.lines time records)

/-- Adds records to the log file. A record that no bytes stand for is left out. -/
def append (s : Sink) (time : String) (records : List Record) : Task Workspace Unit :=
  match s.file with
  | none => return ()
  | some path =>
    let text := String.join ((s.lines time records).filter Text.isEncodable)
    Workspace.change fun files => files.append path text.toUTF8.toList

end Sink

/-- The name of the whole log, which stands before the names of its channels. -/
def title : String := "queryloop"

def Entry.toRecord (e : Entry) : Record :=
  ⟨e.level, title ++ "." ++ e.channel.name, e.text⟩

end Log

end NPlusOne
