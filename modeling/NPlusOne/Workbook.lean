import NPlusOne.FileTree
import NPlusOne.FileTree.Glob
import NPlusOne.Moment
import NPlusOne.Report

namespace NPlusOne

namespace Workbook

/-- Control characters have no place in a sheet; tabs and line ends do. -/
def isIllegal (c : Char) : Bool :=
  c.toNat < 9 || c.toNat = 11 || c.toNat = 12 || (14 ≤ c.toNat && c.toNat < 32)

def maxLength : Nat := 32767

def textCell (s : String) : Except Failure CellValue :=
  let kept := s.toList.take maxLength
  if kept.any isIllegal then .error (.illegalCharacter (String.ofList kept))
  else .ok (.text (String.ofList kept))

def numberCell : Option Int → CellValue
  | some n => .number n
  | none => .blank

def headerStyle : CellStyle :=
  { bold := true, color := some "FFFFFF", fill := some "4472C4", border := true,
    horizontal := some .center, centered := true }

def bordered : CellStyle := { border := true }

def messageStyle : CellStyle := { border := true, fill := some "FFC7CE" }

def reportRow (row : Nat) (r : Report) : Except Failure (List Cell) := do
  return [⟨1, row, ← textCell r.location.file, bordered⟩,
    ⟨2, row, .number r.location.line, bordered⟩,
    ⟨3, row, numberCell r.location.column, bordered⟩,
    ⟨4, row, ← textCell r.message, messageStyle⟩]

def reportRows : Nat → List Report → Except Failure (List Cell)
  | _, [] => .ok []
  | row, r :: rest => do return (← reportRow row r) ++ (← reportRows (row + 1) rest)

def reportSheet (reports : List Report) : Except Failure Sheet := do
  let headers := (["File", "Line", "Column", "Message"].zipIdx 1).map fun (title, column) =>
    (⟨column, 1, .text title, headerStyle⟩ : Cell)
  return { title := "Reports", cells := headers ++ (← reportRows 2 reports),
           widths := [(1, 60), (2, 8), (3, 8), (4, 40)] }

def counts (reports : List Report) : List (String × Nat) :=
  let files := reports.map (·.location.file)
  (sortUnique files).map fun file => (file, files.count file)

def countStyle : CellStyle := { border := true, horizontal := some .right }

def countRows : Nat → List (String × Nat) → Except Failure (List Cell)
  | _, [] => .ok []
  | row, (file, n) :: rest => do
    return ⟨1, row, ← textCell file, bordered⟩ :: ⟨2, row, .number n, countStyle⟩ ::
      (← countRows (row + 1) rest)

/-- The date and time of the export; the year is not filled up. -/
def stamp (now : Moment) : String :=
  let pad := Moment.pad 2
  let date := toString now.year ++ "-" ++ pad now.month ++ "-" ++ pad now.day
  let time := now.time.getD ⟨0, 0, 0, 0, none⟩
  date ++ " " ++ pad time.hour ++ ":" ++ pad time.minute ++ ":" ++ pad time.second

def summarySheet (now : Moment) (reports : List Report) : Except Failure Sheet := do
  let perFile := counts reports
  let headerStyle : CellStyle := { bold := true, border := true, horizontal := some .center }
  let total := 5 + perFile.length
  let cells : List Cell :=
    [⟨1, 1, .text "N+1クエリ検出サマリー", { bold := true, size := some 14 }⟩,
      ⟨1, 2, .text ("生成日時: " ++ stamp now), {}⟩,
      ⟨1, 4, .text "File", headerStyle⟩, ⟨2, 4, .text "Reports", headerStyle⟩] ++
    (← countRows 5 perFile) ++
    [⟨1, total, .text "合計", { bold := true, border := true }⟩,
      ⟨2, total, .number reports.length, { countStyle with bold := true }⟩]
  return { title := "Summary", cells, merged := ["A1:B1", "A2:B2"], widths := [(1, 60), (2, 10)] }

def sheets (now : Moment) (reports : List Report) : Except Failure (List Sheet) := do
  return [← reportSheet reports, ← summarySheet now reports]

/-- Writes the reports into a workbook file. The file is made before its numbers are looked at. -/
def save (now : Moment) (path : String) (reports : List Report) : Task Workspace Unit := do
  let path := Path.tidy path
  let book ← Task.ofExcept (sheets now reports)
  Workspace.makeParent path
  Workspace.write path (.bytes [])
  if !book.all Sheet.isBounded then throw .numberTooLarge
  Workspace.write path (.book book)
  Log.write .info .workbook s!"{reports.length} reports written to {path}"

end Workbook

end NPlusOne
