import Mathlib.Algebra.BigOperators.Group.List.Lemmas
import Mathlib.Algebra.Ring.Nat
import NPlusOne.Proofs.FileContent
import NPlusOne.Proofs.SortedTexts
import NPlusOne.Workbook

namespace NPlusOne

namespace Sheet

/-- The columns and values of a row. -/
def rowAt (s : Sheet) (row : Nat) : List (Nat × CellValue) :=
  (s.cells.filter (·.row = row)).map fun c => (c.column, c.value)

/-- The sheet has a row for each report, in their order and without a gap, and no others. -/
structure Lists (s : Sheet) (reports : List Report) : Prop where
  title : s.title = "Reports"
  header : s.rowAt 1 = [(1, .text "File"), (2, .text "Line"), (3, .text "Column"),
    (4, .text "Message")]
  row : ∀ i r, reports[i]? = some r → s.rowAt (2 + i) = [(1, .text r.location.file),
    (2, .number r.location.line), (3, Workbook.numberCell r.location.column), (4, .text r.message)]
  last : ∀ c ∈ s.cells, c.row < 2 + reports.length

end Sheet

namespace Workbook

/-- Rows of cells one below the other. -/
def stack {α : Type} (f : Nat → α → List Cell) : Nat → List α → List Cell
  | _, [] => []
  | row, x :: rest => f row x ++ stack f (row + 1) rest

section Stack

variable {α : Type} {f : Nat → α → List Cell} {xs : List α} {cells : List Cell}

variable {front back : List Cell} {start : Nat} (hf : ∀ row x, ∀ c ∈ f row x, c.row = row)
  (hfront : ∀ c ∈ front, c.row < start) (hback : ∀ c ∈ back, c.row = start + xs.length)

include hf hfront hback

end Stack

/-- The path and the message fit into cells. -/
structure Fits (r : Report) : Prop where
  file : r.location.file.length ≤ maxLength
  message : r.message.length ≤ maxLength

section Cells

variable {text : String} {reports : List Report} {r : Report} {row : Nat}

end Cells

section Sheets

variable {reports : List Report} {file : String}

end Sheets

section Save

variable {now : Moment} {path : String} {reports : List Report} {w w' : Workspace}

/-- When reports are saved: no text is refused, the directory can be made, the file can be written,
and no number is too large. -/
theorem run_save : (save now path reports).run w = (.ok (), w') ↔
    ∃ book files names, sheets now reports = .ok book ∧ book.all Sheet.isBounded = true ∧
      w.files.makeDirectories (Path.parent (Path.tidy path)) = .ok files ∧
      files.writable (Path.tidy path) = .ok names ∧
      w' = ⟨(files.put names (.file (.bytes []))).put names (.file (.book book)),
        w.log.push ⟨.info, .workbook,
          s!"{reports.length} reports written to {Path.tidy path}"⟩⟩ := by
  constructor
  · intro h
    obtain ⟨book, hbook, h⟩ := Task.ofExcept_bind_eq_ok h
    obtain ⟨_, w₁, hparent, h⟩ := Task.run_bind_eq_ok h
    obtain ⟨files, hfiles, rfl⟩ := Workspace.run_change.mp hparent
    obtain ⟨_, w₂, hfirst, h⟩ := Task.run_bind_eq_ok h
    obtain ⟨names, hnames, rfl⟩ := Workspace.run_write.mp hfirst
    cases hbounded : book.all Sheet.isBounded with
    | false =>
      simp only [hbounded, Bool.not_false, ↓reduceIte] at h
      cases h
    | true =>
      simp only [hbounded, Bool.not_true, Bool.false_eq_true, ↓reduceIte] at h
      obtain ⟨_, w₃, hsecond, h⟩ := Task.run_bind_eq_ok h
      obtain ⟨names', hnames', rfl⟩ := Workspace.run_write.mp hsecond
      cases hnames'.symm.trans (FileTree.writable_put hnames _)
      cases h
      exact ⟨book, files, names, hbook, hbounded, hfiles, hnames, rfl⟩
  · rintro ⟨book, files, names, hbook, hbounded, hfiles, hnames, rfl⟩
    have hparent : (Workspace.makeParent (Path.tidy path)).run w = (.ok (), { w with files }) :=
      Workspace.run_change.mpr ⟨files, hfiles, rfl⟩
    have hfirst : (Workspace.write (Path.tidy path) (.bytes [])).run { w with files } =
        (.ok (), { w with files := files.put names (.file (.bytes [])) }) :=
      Workspace.run_write.mpr ⟨names, hnames, rfl⟩
    have hsecond : (Workspace.write (Path.tidy path) (.book book)).run
          { w with files := files.put names (.file (.bytes [])) } =
        (.ok (), { w with
          files := (files.put names (.file (.bytes []))).put names (.file (.book book)) }) :=
      Workspace.run_write.mpr ⟨names, FileTree.writable_put hnames _, rfl⟩
    rw [save, Task.run_ofExcept_bind hbook, Task.run_bind_ok hparent, Task.run_bind_ok hfirst]
    simp only [hbounded, Bool.not_true, Bool.false_eq_true, ↓reduceIte]
    exact (Task.run_bind_ok hsecond).trans rfl

end Save

end Workbook

namespace SampleExport

/-- One report occurs twice. -/
def reports : List Report :=
  [⟨⟨"/b.cpp", 3, some 5⟩, "query"⟩, ⟨⟨"/a.cpp", 7, none⟩, "query"⟩,
    ⟨⟨"/b.cpp", 3, some 5⟩, "query"⟩]

def now : Moment := ⟨2024, 1, 2, none⟩

def space : Workspace := { files := .empty }

end SampleExport

end NPlusOne
