import NPlusOne.Text.Printable
import NPlusOne.Text.Surrogate

namespace NPlusOne

namespace Text

def hexDigit (n : Nat) : Char :=
  if n < 10 then Char.ofNat (48 + n) else Char.ofNat (87 + n)

def hexDigits : (width n : Nat) → List Char
  | 0, _ => []
  | width + 1, n => hexDigits width (n / 16) ++ [hexDigit (n % 16)]

def quoteMark (text : List Char) : Char :=
  if '\'' ∈ text ∧ '"' ∉ text then '"' else '\''

def escapeCode (n : Nat) : List Char :=
  if n < 0x100 then '\\' :: 'x' :: hexDigits 2 n
  else if n < 0x10000 then '\\' :: 'u' :: hexDigits 4 n
  else '\\' :: 'U' :: hexDigits 8 n

/-- A character inside quotation marks `mark`: what `shows` refuses is escaped. -/
def escapeChar (shows : Char → Bool) (mark c : Char) : List Char :=
  if c = mark || c = '\\' then ['\\', c]
  else if c = '\t' then ['\\', 't']
  else if c = '\n' then ['\\', 'n']
  else if c = '\r' then ['\\', 'r']
  else if shows c then [c]
  else escapeCode (code c)

def quoteWith (shows : Char → Bool) (text : List Char) : List Char :=
  let mark := quoteMark text
  mark :: (text.flatMap (escapeChar shows mark) ++ [mark])

def quote (text : String) : String :=
  String.ofList (quoteWith isPrintable text.toList)

def isPlainAscii (c : Char) : Bool :=
  0x20 ≤ c.toNat && c.toNat < 0x7F

/-- A text from elsewhere with all but its plain characters escaped. -/
def plainAscii (text : String) : String :=
  String.ofList (text.toList.flatMap fun c => if c.toNat < 0x80 then [c] else escapeCode (code c))

def quoteBytes (bytes : List UInt8) : String :=
  String.ofList ('b' :: quoteWith isPlainAscii (bytes.map fun b => Char.ofNat b.toNat))

end Text

end NPlusOne
