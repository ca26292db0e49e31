import NPlusOne.Double.Format
import NPlusOne.Numeral
import NPlusOne.Value

namespace NPlusOne

namespace Log

structure Shape where
  left : Bool := false
  zeros : Bool := false
  plus : Bool := false
  blank : Bool := false
  marked : Bool := false
  width : Nat := 0
  precision : Option Nat := none
  conversion : Char
  deriving DecidableEq, Repr

namespace Shape

def maxWidth : Nat := 100000000

/-- A text may be cut at more characters than that, but not at any number of them. -/
def isBounded (shape : Shape) : Bool :=
  let cuts := ['s', 'r', 'a', 'c'].contains shape.conversion
  shape.width ≤ maxWidth && shape.precision.getD 0 ≤ if cuts then twoTo 31 - 1 else maxWidth

def fill (shape : Shape) (text : String) : String :=
  let gap := String.ofList (List.replicate (shape.width - text.length) ' ')
  if shape.left then text ++ gap else gap ++ text

def cut (shape : Shape) (text : String) : String :=
  match shape.precision with
  | some n => String.ofList (text.toList.take n)
  | none => text

/-- A number from its digits; `lead` stands between its sign and them. -/
def number (shape : Shape) (negative : Bool) (lead digits : String) : String :=
  let sign := if negative then "-" else if shape.plus then "+" else if shape.blank then " " else ""
  let lead := sign ++ lead
  if shape.zeros && !shape.left then lead ++ Text.padLeft (shape.width - lead.length) '0' digits
  else shape.fill (lead ++ digits)

def whole (shape : Shape) (base : Nat) (mark : String) (n : Int) : String :=
  let digits := Text.padLeft (shape.precision.getD 0) '0'
    (String.ofList (Nat.toDigits base n.natAbs))
  shape.number (n < 0) (if shape.marked then mark else "") digits

def wholeDecimal (shape : Shape) : Value → Option String
  | .int n => some (shape.whole 10 "" n)
  | _ => none

def wholeInBase (shape : Shape) (base : Nat) (mark : String) : Value → Option String
  | .int n => some (shape.whole base mark n)
  | _ => none

/-- A number as a float; six digits behind the point where nothing else is asked for. -/
def float (shape : Shape) (form : Double.NumberForm) : Value → Option String
  | .int n => do
    let x ← Double.ofInt? n
    let digits := x.formatAbs form (shape.precision.getD 6) shape.marked
    return shape.number x.isNegative "" (String.ofList digits)
  | _ => none

def character (shape : Shape) : Value → Option String
  | .int n =>
    if 0 ≤ n && n < 0x110000 then some (shape.fill (String.singleton (Text.ofCode n.toNat)))
    else none
  | .text s => if s.length = 1 then some (shape.fill s) else none
  | _ => none

/-- Writes a value; some kinds of values do not go with some conversions. -/
def write (shape : Shape) (v : Value) : Option String :=
  match shape.conversion with
  | 's' => some (shape.fill (shape.cut v.display))
  | 'r' => some (shape.fill (shape.cut v.quoted))
  | 'a' => some (shape.fill (shape.cut (Text.plainAscii v.quoted)))
  | 'c' => shape.character v
  | 'd' => shape.wholeDecimal v
  | 'i' => shape.wholeDecimal v
  | 'u' => shape.wholeDecimal v
  | 'x' => shape.wholeInBase 16 "0x" v
  | 'X' => (shape.wholeInBase 16 "0x" v).map String.toUpper
  | 'o' => shape.wholeInBase 8 "0o" v
  | 'e' => shape.float .exponential v
  | 'E' => (shape.float .exponential v).map String.toUpper
  | 'f' => shape.float .fixed v
  | 'F' => (shape.float .fixed v).map String.toUpper
  | 'g' => shape.float .general v
  | 'G' => (shape.float .general v).map String.toUpper
  | _ => none

end Shape

end Log

end NPlusOne
