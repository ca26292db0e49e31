import NPlusOne.Text

namespace NPlusOne

namespace Text

def unifyNewlines : List Char → List Char
  | [] => []
  | '\r' :: '\n' :: text => '\n' :: unifyNewlines text
  | '\r' :: text => '\n' :: unifyNewlines text
  | c :: text => c :: unifyNewlines text

def pairedReturns : List Char → List Char
  | [] => []
  | '\r' :: '\n' :: text => '\n' :: pairedReturns text
  | c :: text => c :: pairedReturns text

def lines : List Char → List (List Char)
  | [] => []
  | c :: text =>
    if c = '\n' then [c] :: lines text
    else match lines text with
      | [] => [[c]]
      | line :: rest => (c :: line) :: rest

def endsLine (c : Char) : Bool :=
  ('\n' ≤ c && c ≤ '\r') || ('\x1c' ≤ c && c ≤ '\x1e') || c = '\u0085' || c = '\u2028' ||
    c = '\u2029'

/-- The lines of a text that is shown, without what ends them; a carriage return and the line feed
behind it end one line. -/
def shownLines (text : List Char) : List (List Char) :=
  let pieces := splitWhere (endsLine ·) (pairedReturns text)
  if pieces.getLast? = some [] then pieces.dropLast else pieces

/-- The last line of a text that is shown; blanks around the text do not count. -/
def lastLine (text : List Char) : List Char :=
  (shownLines (trim text)).getLast?.getD []

end Text

end NPlusOne
