import NPlusOne.Numeral
import NPlusOne.Value

namespace NPlusOne

namespace Json

def isSpace (c : Char) : Bool :=
  c = ' ' || c = '\t' || c = '\n' || c = '\r'

def skipSpaces (text : List Char) : List Char :=
  text.dropWhile isSpace

def hexNumber? (digits : List Char) : Option Nat :=
  digits.foldl (fun n c => do return (← n) * 16 + (← Numeral.hexValue? c)) (some 0)

def pairChar? (high low : Nat) : Option Char :=
  if 0xD800 ≤ high && high < 0xDC00 && 0xDC00 ≤ low && low < 0xE000
  then some (Char.ofNat (0x10000 + (high - 0xD800) * 0x400 + (low - 0xDC00))) else none

def chars : List Char → Option (List Char × List Char)
  | [] => none
  | '"' :: rest => some ([], rest)
  | '\\' :: 'u' :: a :: b :: c :: d :: '\\' :: 'u' :: e :: f :: g :: h :: rest => do
    let high ← hexNumber? [a, b, c, d]
    match (hexNumber? [e, f, g, h]).bind (pairChar? high) with
    | some char =>
      let (text, rest) ← chars rest
      return (char :: text, rest)
    | none =>
      let (text, rest) ← chars ('\\' :: 'u' :: e :: f :: g :: h :: rest)
      return (Text.ofCode high :: text, rest)
  | '\\' :: 'u' :: a :: b :: c :: d :: rest => do
    let unit ← hexNumber? [a, b, c, d]
    let (text, rest) ← chars rest
    return (Text.ofCode unit :: text, rest)
  | '\\' :: c :: rest => do
    let char ← match c with
      | '"' => some '"'
      | '\\' => some '\\'
      | '/' => some '/'
      | 'b' => some '\x08'
      | 'f' => some '\x0c'
      | 'n' => some '\n'
      | 'r' => some '\r'
      | 't' => some '\t'
      | _ => none
    let (text, rest) ← chars rest
    return (char :: text, rest)
  | c :: rest =>
    if c.toNat < 0x20 then none
    else do
      let (text, rest) ← chars rest
      return (c :: text, rest)

inductive Problem where
  | malformed
  | tooManyDigits (count : Nat)
  | tooDeep (isMap : Bool)
  deriving DecidableEq, Repr

def malformed {α : Type} : Except Problem α := .error .malformed

def fraction (text : List Char) : List Char × List Char :=
  match text with
  | '.' :: rest =>
    match Numeral.spanDigits rest with
    | ([], _) => ([], text)
    | found => found
  | _ => ([], text)

/-- A number without its sign. A fraction or a power of ten makes it a float. -/
def number (negative : Bool) (text : List Char) : Except Problem (Value × List Char) :=
  let (digits, rest) := match text with
    | '0' :: rest => (['0'], rest)
    | _ => Numeral.spanDigits text
  if digits.isEmpty then malformed
  else
    let (places, rest) := fraction rest
    let (power, rest) := Numeral.exponent rest
    let value := Numeral.natural 10 (digits ++ places)
    if places.isEmpty && power.isNone then
      if maxDigits < digits.length then .error (.tooManyDigits digits.length)
      else .ok (.int (if negative then -value else value), rest)
    else .ok (.float (.ofDecimal negative value (power.getD 0 - places.length)), rest)

def wordValues : List (String × Value) :=
  [("null", .null), ("true", .bool true), ("false", .bool false), ("NaN", .float .nan),
    ("Infinity", .float (.infinite false)), ("-Infinity", .float (.infinite true))]

def word? (text : List Char) : List (String × Value) → Option (Value × List Char)
  | [] => none
  | (name, value) :: rest =>
    match Text.dropLead? name.toList text with
    | some after => some (value, after)
    | none => word? text rest

def string (text : List Char) : Except Problem (String × List Char) :=
  match chars text with
  | some (s, rest) => .ok (String.ofList s, rest)
  | none => malformed

def scalar (text : List Char) : Except Problem (Value × List Char) :=
  match word? text wordValues with
  | some found => .ok found
  | none =>
    match text with
    | '"' :: rest => do
      let (s, rest) ← string rest
      return (.text s, rest)
    | '-' :: rest => number true rest
    | _ => number false text

/-- How often lists and maps may stand inside each other. -/
def maxDepth : Nat := 985

mutual

/-- A value at the start of the text. The first counter bounds the steps, the second the depth. -/
def value : Nat → Nat → List Char → Except Problem (Value × List Char)
  | 0, _, _ => malformed
  | _ + 1, 0, text =>
    match text with
    | '[' :: _ => .error (.tooDeep false)
    | '\x7b' :: _ => .error (.tooDeep true)
    | _ => scalar text
  | n + 1, depth + 1, '[' :: rest =>
    match skipSpaces rest with
    | ']' :: rest => .ok (.list [], rest)
    | rest => do
      let (items, rest) ← items n depth rest
      return (.list items, rest)
  | n + 1, depth + 1, '\x7b' :: rest =>
    match skipSpaces rest with
    | '\x7d' :: rest => .ok (.map [], rest)
    | rest => do
      let (entries, rest) ← entries n depth [] rest
      return (.map entries, rest)
  | _ + 1, _ + 1, text => scalar text

/-- The items of a list up to its closing bracket; there is at least one. -/
def items : Nat → Nat → List Char → Except Problem (List Value × List Char)
  | 0, _, _ => malformed
  | n + 1, depth, text => do
    let (v, rest) ← value n depth text
    match skipSpaces rest with
    | ']' :: rest => return ([v], rest)
    | ',' :: rest =>
      let (vs, rest) ← items n depth (skipSpaces rest)
      return (v :: vs, rest)
    | _ => malformed

/-- The entries of a map up to its closing brace; the last value of a key counts. -/
def entries : Nat → Nat → List (Value × Value) → List Char →
    Except Problem (List (Value × Value) × List Char)
  | n + 1, depth, done, '"' :: text => do
    let (key, rest) ← string text
    match skipSpaces rest with
    | ':' :: rest =>
      let (v, rest) ← value n depth (skipSpaces rest)
      let done := Value.putEntry (.text key) v done
      match skipSpaces rest with
      | '\x7d' :: rest => return (done, rest)
      | ',' :: rest => entries n depth done (skipSpaces rest)
      | _ => malformed
    | _ => malformed
  | _, _, _, _ => malformed

end

/-- The value that a document holds; anything but blanks around it makes the document invalid. -/
def parse (text : List Char) : Except Problem Value := do
  let (v, rest) ← value (2 * text.length + 2) maxDepth (skipSpaces text)
  if (skipSpaces rest).isEmpty then return v else malformed

def escapeUnit (n : Nat) : List Char :=
  '\\' :: 'u' :: Text.hexDigits 4 n

/-- A character inside quotation marks; only ASCII is written as it is. -/
def escapeChar (c : Char) : List Char :=
  if c = '"' || c = '\\' then ['\\', c]
  else if c = '\n' then ['\\', 'n']
  else if c = '\r' then ['\\', 'r']
  else if c = '\t' then ['\\', 't']
  else if c = '\x0c' then ['\\', 'f']
  else if c = '\x08' then ['\\', 'b']
  else if 0x20 ≤ c.toNat && c.toNat < 0x7F then [c]
  else if Text.code c < 0x10000 then escapeUnit (Text.code c)
  else
    let n := c.toNat - 0x10000
    escapeUnit (0xD800 + n / 0x400) ++ escapeUnit (0xDC00 + n % 0x400)

def quote (s : String) : String :=
  String.ofList ('"' :: (s.toList.flatMap escapeChar ++ ['"']))

def floatText : Double → String
  | .nan => "NaN"
  | .infinite negative => if negative then "-Infinity" else "Infinity"
  | x => x.text

mutual

def render : Value → String
  | .null => "null"
  | .bool b => if b then "true" else "false"
  | .int n => toString n
  | .float x => floatText x
  | .text s => quote s
  | .list items => "[" ++ renderItems items ++ "]"
  | .tuple items => "[" ++ renderItems items ++ "]"
  | .set members => "[" ++ renderItems members ++ "]"
  | .map entries => "\x7b" ++ renderEntries entries ++ "\x7d"
  | v => quote v.display

def renderItems : List Value → String
  | [] => ""
  | [v] => render v
  | v :: w :: rest => render v ++ ", " ++ renderItems (w :: rest)

def renderEntries : List (Value × Value) → String
  | [] => ""
  | [(k, v)] => quote k.display ++ ": " ++ render v
  | (k, v) :: e :: rest => quote k.display ++ ": " ++ render v ++ ", " ++ renderEntries (e :: rest)

end

end Json

end NPlusOne
