import NPlusOne.FileTree
import NPlusOne.Program.Node
import NPlusOne.Text.Lines
import NPlusOne.Text.Utf8
import NPlusOne.Value

namespace NPlusOne

/-- A position that a report points at; the file is in normal form. -/
structure Location where
  file : String
  line : Int
  column : Option Int := none
  deriving DecidableEq, Repr

namespace Location

def ofPath (path : String) (line : Int) (column : Option Int) : Location :=
  ⟨Path.normalize path, line, column⟩

def columnKey (l : Location) : Int :=
  l.column.getD 0

/-- Positions are ordered by file, line and column. -/
def precedes (a b : Location) : Bool :=
  if a.file = b.file then
    if a.line = b.line then a.columnKey ≤ b.columnKey else a.line < b.line
  else a.file < b.file

/-- A missing column and column zero are not shown. -/
def text (l : Location) : String :=
  if l.columnKey = 0 then l.file ++ ":" ++ toString l.line
  else l.file ++ ":" ++ toString l.line ++ ":" ++ toString l.columnKey

end Location

structure Report where
  location : Location
  message : String
  deriving DecidableEq, Repr

namespace Report

def queryInLoop : String := "this query is called in a loop"

def text (r : Report) : String :=
  r.location.text ++ ": " ++ r.message

/-- A report at a node; there is none at a node that lies in no file. -/
def atNode? (n : Node) (message : String) : Option Report :=
  n.info.place.map fun place => ⟨.ofPath place.file place.line (some place.column), message⟩

/-- The reports in the order of their positions; reports at one position keep their order. -/
def sort (reports : List Report) : List Report :=
  reports.mergeSort fun a b => a.location.precedes b.location

end Report

/-- The lines of the source files that were looked at; a file is read once. -/
abbrev SourceLines := List (String × List String)

namespace Suppression

def readLines (files : FileTree) (path : String) : Except Failure (List String) := do
  let text := Utf8.decodeReplacing (← files.read path)
  return (Text.lines (Text.unifyNewlines text)).map String.ofList

/-- The line with the given number, counted from one; there is nothing in any other. -/
def lineAt (lines : List String) (number : Int) : String :=
  if number < 1 then "" else lines[number.toNat - 1]?.getD ""

/-- A line is marked when the marker stands in it. Only a text can stand in a line. -/
def isMarked (marker : Value) (line : String) : Except Failure Bool := do
  return Text.contains (← marker.asText).toList line.toList

end Suppression

end NPlusOne
