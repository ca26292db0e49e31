import NPlusOne.Log
import NPlusOne.Log.Shape
import NPlusOne.Text.LetterCase
import NPlusOne.Text.WordChar

namespace NPlusOne

namespace Log

structure Record where
  level : Level
  name : String
  text : String
  deriving DecidableEq, Repr

def loggerName (name : String) : String :=
  if name = "" then "root" else name

/-- One part of a layout: a character for itself or a field. A field without a name stands for all
that a line tells. -/
inductive Piece where
  | char (c : Char)
  | field (name : Option String) (shape : Shape)
  deriving DecidableEq, Repr

/-- A layout, part by part; nothing can be written by a layout with a broken field. -/
abbrev Layout := Option (List Piece)

namespace Layout

def isFlag (c : Char) : Bool :=
  c = '-' || c = '+' || c = ' ' || c = '#' || c = '0'

def dropCount : List Char → List Char
  | '*' :: rest => rest
  | text => text.dropWhile Text.isDigit

def startsWithField : List Char → Bool
  | '%' :: '(' :: text =>
    let name := text.takeWhile Text.isWordChar
    match text.drop name.length with
    | ')' :: rest =>
      let rest := dropCount (rest.dropWhile isFlag)
      let rest := match rest with
        | '.' :: precision => if dropCount precision = precision then rest else dropCount precision
        | _ => rest
      !name.isEmpty && match rest with
        | c :: _ => "diouxefgcrsa%".toList.contains (Text.fold c)
        | [] => false
    | _ => false
  | _ => false

def hasField : List Char → Bool
  | [] => false
  | c :: rest => startsWithField (c :: rest) || hasField rest

def name? : (depth : Nat) → List Char → Option (List Char × List Char)
  | _, [] => none
  | 0, ')' :: rest => some ([], rest)
  | depth, c :: rest =>
    let inner := if c = '(' then depth + 1 else if c = ')' then depth - 1 else depth
    (name? inner rest).map fun (name, after) => (c :: name, after)

def shape? (text : List Char) : Option (Shape × List Char) := do
  let flags := text.takeWhile isFlag
  let rest := text.drop flags.length
  let width := rest.takeWhile Char.isDigit
  let rest := rest.drop width.length
  let (precision, rest) := match rest with
    | '.' :: rest =>
      let digits := rest.takeWhile Char.isDigit
      (some (Numeral.natural 10 digits), rest.drop digits.length)
    | _ => (none, rest)
  let rest := match rest with
    | c :: after => if c = 'h' || c = 'l' || c = 'L' then after else rest
    | [] => []
  match rest with
  | conversion :: rest =>
    let shape : Shape :=
      { left := flags.contains '-', zeros := flags.contains '0', plus := flags.contains '+',
        blank := flags.contains ' ', marked := flags.contains '#',
        width := Numeral.natural 10 width, precision, conversion }
    if shape.isBounded then some (shape, rest) else none
  | [] => none

/-- The parts of a layout. The counter bounds the steps by its length. -/
def parse : Nat → List Char → Layout
  | _, [] => some []
  | 0, _ => none
  | n + 1, '%' :: '%' :: rest => do return .char '%' :: (← parse n rest)
  | n + 1, '%' :: '(' :: rest => do
    let (name, rest) ← name? 0 rest
    let (shape, rest) ← shape? rest
    return .field (some (String.ofList name)) shape :: (← parse n rest)
  | n + 1, '%' :: rest => do
    let (shape, rest) ← shape? rest
    return .field none shape :: (← parse n rest)
  | n + 1, c :: rest => do return .char c :: (← parse n rest)

/-- A layout needs at least one complete field. -/
def ofText (text : String) : Except Failure Layout :=
  if hasField text.toList then .ok (parse text.length text.toList) else .error (.badFormat text)

def usual : String :=
  "%(asctime)s - %(name)s - %(levelname)s - %(message)s"

/-- All that a line tells, in its order; what follows the level is left open. -/
def contents (r : Record) : Value :=
  .map [(.text "name", .text r.name), (.text "msg", .text r.text), (.text "args", .tuple []),
    (.text "levelname", .text r.level.name), (.text "levelno", .int r.level.weight)]

def fieldValue? (time : String) (r : Record) : String → Option Value
  | "asctime" => some (.text time)
  | "name" => some (.text r.name)
  | "levelname" => some (.text r.level.name)
  | "levelno" => some (.int r.level.weight)
  | "message" => some (.text r.text)
  | "msg" => some (.text r.text)
  | "args" => some (.tuple [])
  | "exc_info" => some .null
  | "exc_text" => some .null
  | "stack_info" => some .null
  | "threadName" => some (.text "MainThread")
  | "processName" => some (.text "MainProcess")
  | _ => none

/-- Writes the parts of a layout. Only the first field of all may be without a name. -/
def writePieces (time : String) (r : Record) (first : Bool) : List Piece → Option String
  | [] => some ""
  | .char c :: rest => do return String.singleton c ++ (← writePieces time r first rest)
  | .field name shape :: rest => do
    let v ← match name with
      | some name => fieldValue? time r name
      | none => if first then some (contents r) else none
    return (← shape.write v) ++ (← writePieces time r false rest)

def write (layout : Layout) (time : String) (r : Record) : Option String := do
  writePieces time r true (← layout)

end Layout

end Log

end NPlusOne
