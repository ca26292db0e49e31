import NPlusOne.Double.Format
import NPlusOne.Failure
import NPlusOne.Text.Quoted

namespace NPlusOne

namespace Numeral

/-- The basic form of a text: digits and blanks of every script turn into basic ones, and the first
other character beyond them ends it with a question mark. -/
def basicForm : List Char → List Char
  | [] => []
  | c :: rest =>
    if c.toNat < 0x7F then c :: basicForm rest
    else if Text.isBlank c then ' ' :: basicForm rest
    else match Text.digitValue? c with
      | some d => Char.ofNat (48 + d) :: basicForm rest
      | none => ['?']

def basic (text : List Char) : List Char :=
  if text.all (·.toNat < 0x80) then text else basicForm text

def isSpace (c : Char) : Bool :=
  c = ' ' || ('\t' ≤ c && c ≤ '\r')

def sign : List Char → Bool × List Char
  | '-' :: rest => (true, rest)
  | '+' :: rest => (false, rest)
  | rest => (false, rest)

def hexValue? (c : Char) : Option Nat :=
  if '0' ≤ c && c ≤ '9' then some (c.toNat - 48)
  else if 'a' ≤ c && c ≤ 'f' then some (c.toNat - 87)
  else if 'A' ≤ c && c ≤ 'F' then some (c.toNat - 55)
  else none

def digitIn? (base : Nat) (c : Char) : Option Nat :=
  match hexValue? c with
  | some d => if d < base then some d else none
  | none => none

def natural (base : Nat) (digits : List Char) : Nat :=
  digits.foldl (fun n c => n * base + (hexValue? c).getD 0) 0

def baseLetter? : Nat → Option Char
  | 2 => some 'b'
  | 8 => some 'o'
  | 16 => some 'x'
  | _ => none

/-- The digits without the mark of their base; one underscore may follow the mark. -/
def withoutBase (base : Nat) (text : List Char) : List Char :=
  match text with
  | '0' :: c :: rest =>
    if baseLetter? base = some c.toLower then
      match rest with
      | '_' :: rest => rest
      | _ => rest
    else text
  | _ => text

/-- Underscores stand between digits only. -/
def isGrouped (text : List Char) : Bool :=
  !(Text.splitOn '_' text).any List.isEmpty

def int (base : Nat) (text : List Char) : Except Failure Int :=
  let (negative, rest) := sign ((basic text).dropWhile isSpace)
  let rest := withoutBase base rest
  let row := rest.takeWhile fun c => (digitIn? base c).isSome || c = '_'
  let digits := row.filter (· ≠ '_')
  let after := rest.drop row.length
  let bad : Failure :=
    let shown := String.ofList ((Text.quote (String.ofList text)).toList.take 200)
    .badNumber s!"invalid literal for int() with base {base}: {shown}"
  if !isGrouped row then .error bad
  else if base = 10 && maxDigits < digits.length then
    .error (.tooManyDigits (some digits.length))
  else if !(after.dropWhile isSpace).isEmpty then .error bad
  else
    let n : Int := natural base digits
    .ok (if negative then -n else n)

def spanDigits (text : List Char) : List Char × List Char :=
  text.span fun c => '0' ≤ c && c ≤ '9'

def exponent (text : List Char) : Option Int × List Char :=
  match text with
  | c :: rest =>
    if c = 'e' || c = 'E' then
      let (negative, rest) := sign rest
      match spanDigits rest with
      | ([], _) => (none, text)
      | (digits, rest) =>
        let n : Int := natural 10 digits
        (some (if negative then -n else n), rest)
    else (none, text)
  | [] => (none, text)

/-- A decimal without its sign: digits, perhaps a point among them, and perhaps a power of ten. -/
def decimal? (negative : Bool) (text : List Char) : Option Double :=
  let (whole, rest) := spanDigits text
  let (places, rest) := match rest with
    | '.' :: rest => spanDigits rest
    | _ => ([], rest)
  let (power, rest) := exponent rest
  let digits := whole ++ places
  if rest.isEmpty && !digits.isEmpty
  then some (.ofDecimal negative (natural 10 digits) (power.getD 0 - places.length))
  else none

/-- A number with a point or a power of ten, an infinite one or none. -/
def float (text : List Char) : Except Failure Double :=
  let (negative, rest) := sign (Text.trimBoth isSpace (basic text))
  match decimal? negative rest with
  | some x => .ok x
  | none =>
    match String.ofList (rest.map Char.toLower) with
    | "inf" => .ok (.infinite negative)
    | "infinity" => .ok (.infinite negative)
    | "nan" => .ok .nan
    | _ =>
      .error (.badNumber
        ("could not convert string to float: " ++ Text.quote (String.ofList text)))

/-- The text of a whole number, unless it has too many digits. -/
def text (n : Int) : Except Failure String :=
  let shown := toString n
  if maxDigits < (toString n.natAbs).length then .error (.tooManyDigits none) else .ok shown

end Numeral

end NPlusOne
