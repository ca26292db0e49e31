import NPlusOne.Moment
import NPlusOne.Text
import NPlusOne.Yaml.Token

namespace NPlusOne

namespace Yaml

def coreTag (name : String) : String :=
  "tag:yaml.org,2002:" ++ name

def truthWords : List String :=
  ["yes", "Yes", "YES", "no", "No", "NO", "true", "True", "TRUE", "false", "False", "FALSE",
    "on", "On", "ON", "off", "Off", "OFF"]

def nullWords : List String :=
  ["~", "null", "Null", "NULL", ""]

def isSign (c : Char) : Bool :=
  c = '-' || c = '+'

def unsigned (text : List Char) : List Char :=
  match text with
  | c :: rest => if isSign c then rest else text
  | [] => []

def isDigitOrGap (c : Char) : Bool :=
  c.isDigit || c = '_'

def isGrouped : List Char → Bool
  | c :: rest => c.isDigit && rest.all isDigitOrGap
  | [] => false

def isSixtieth : List Char → Bool
  | [c] => c.isDigit
  | [a, b] => a.isDigit && a ≤ '5' && b.isDigit
  | _ => false

/-- A number in parts of sixty, divided by colons; there are two parts at least. -/
def isSexagesimal (text : List Char) : Bool :=
  match Text.splitOn ':' text with
  | first :: second :: rest => isGrouped first && (second :: rest).all isSixtieth
  | _ => false

def someAll (p : Char → Bool) (text : List Char) : Bool :=
  !text.isEmpty && text.all p

/-- A whole number: binary, octal, decimal, hexadecimal or in parts of sixty. -/
def isWhole (text : List Char) : Bool :=
  let bare := unsigned text
  match bare with
  | ['0'] => true
  | '0' :: 'b' :: rest => someAll (fun c => c = '0' || c = '1' || c = '_') rest
  | '0' :: 'x' :: rest =>
    someAll (fun c => c.isDigit || ('a' ≤ c && c ≤ 'f') || ('A' ≤ c && c ≤ 'F') || c = '_') rest
  | '0' :: rest => someAll (fun c => ('0' ≤ c && c ≤ '7') || c = '_') rest
  | _ => isGrouped bare || isSexagesimal bare

def isPower : List Char → Bool
  | c :: rest => isSign c && someAll Char.isDigit rest
  | [] => false

def isDecimals (text : List Char) : Bool :=
  let digits := text.takeWhile isDigitOrGap
  match text.drop digits.length with
  | [] => true
  | c :: rest => (c = 'e' || c = 'E') && isPower rest

def isFractional (text : List Char) : Bool :=
  let bare := unsigned text
  let whole := bare.takeWhile (· ≠ '.')
  match bare.drop whole.length with
  | '.' :: rest =>
    if whole.isEmpty then
      (["inf", "Inf", "INF"].contains (String.ofList rest)) ||
        (text.head? = some '.' && (["nan", "NaN", "NAN"].contains (String.ofList rest) ||
          (isGrouped (rest.take 1) && isDecimals rest)))
    else (isGrouped whole && isDecimals rest) || (isSexagesimal whole && rest.all isDigitOrGap)
  | _ => false

/-- The text without a line feed at its end, which does not count; there is a text before it. -/
def withoutLineFeed (text : List Char) : List Char :=
  if 1 < text.length && text.getLast? = some '\n' then text.dropLast else text

def plainTag (text : List Char) : String :=
  let text := withoutLineFeed text
  let word := String.ofList text
  coreTag <|
    if truthWords.contains word then "bool"
    else if isFractional text then "float"
    else if isWhole text then "int"
    else if word = "<<" then "merge"
    else if nullWords.contains word then "null"
    else if Moment.isWritten text then "timestamp"
    else if word = "=" then "value"
    else if ["!", "&", "*"].contains word then "yaml"
    else "str"

end Yaml

end NPlusOne
