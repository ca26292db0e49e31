import NPlusOne.Numeral
import NPlusOne.Text.Lines

namespace NPlusOne

inductive CellValue where
  | blank
  | number (n : Int)
  | float (x : Double)
  | text (s : String)
  deriving DecidableEq, Repr

/-- A whole number as a file gives it back: as the float nearest to it, with sixteen digits, which
is whole again unless a power of ten was needed. -/
def CellValue.ofInt (n : Int) : CellValue :=
  let digits := (Double.ofInt n).formatAbs .general 16 false
  match Numeral.decimal? (n < 0) digits with
  | some x =>
    if digits.all Char.isDigit then
      let m : Int := Numeral.natural 10 digits
      .number (if n < 0 then -m else m)
    else .float x
  | none => .number n

/-- A value as a file gives it back: an empty text is no value, and all line ends are line feeds. -/
def CellValue.reread : CellValue → CellValue
  | .number n => .ofInt n
  | .text s => if s = "" then .blank else .text (String.ofList (Text.unifyNewlines s.toList))
  | v => v

inductive Alignment where
  | center
  | right
  deriving DecidableEq, Repr

/-- How a cell looks; colours are six hexadecimal digits. -/
structure CellStyle where
  bold : Bool := false
  size : Option Nat := none
  color : Option String := none
  fill : Option String := none
  border : Bool := false
  horizontal : Option Alignment := none
  centered : Bool := false
  deriving DecidableEq, Repr

/-- A cell by its column and row, both counted from one. -/
structure Cell where
  column : Nat
  row : Nat
  value : CellValue
  style : CellStyle := {}
  deriving DecidableEq, Repr

/-- A sheet of a workbook: its cells row by row, the merged ranges and the column widths. -/
structure Sheet where
  title : String
  cells : List Cell
  merged : List String := []
  widths : List (Nat × Nat) := []
  deriving DecidableEq, Repr

/-- A sheet as a file gives it back. -/
def Sheet.reread (s : Sheet) : Sheet :=
  { s with cells := s.cells.map fun c => { c with value := c.value.reread } }

/-- No number of the sheet lies beyond all floats. -/
def Sheet.isBounded (s : Sheet) : Bool :=
  s.cells.all fun c => match c.value with
    | .number n => (Double.ofInt? n).isSome
    | _ => true

def CellValue.plain : CellValue → String
  | .blank => ""
  | .number n => toString n
  | .float x => x.text
  | .text s => s

/-- A sheet as a plain table: its title, then one line for each row with tabs between the cells. -/
def Sheet.plain (s : Sheet) : String :=
  let rows := (s.cells.map Cell.row).eraseDups
  let line (row : Nat) : String :=
    "\t".intercalate ((s.cells.filter (·.row = row)).map (·.value.plain))
  "\n".intercalate (s.title :: rows.map line) ++ "\n"

end NPlusOne
