import NPlusOne.Failure

namespace NPlusOne

namespace ShellWords

/-- Where a character stands. An escaped one remembers the quotation that it is in. -/
inductive Mode where
  | plain
  | quoted (mark : Char)
  | escaped (mark : Option Char)
  deriving DecidableEq, Repr

def isSpace (c : Char) : Bool :=
  c = ' ' || c = '\t' || c = '\r' || c = '\n'

def isMark (c : Char) : Bool :=
  c = '\'' || c = '"'

/-- Splits the text; `word` is the word that has been begun, last character first. In double
quotation marks a backslash escapes only itself and the mark, in single ones nothing. -/
def split : Mode → (word : Option (List Char)) → List Char → Except WordsError (List (List Char))
  | .plain, word, [] => .ok (word.map List.reverse).toList
  | .plain, word, c :: text =>
    if isSpace c then
      (split .plain none text).map fun rest => (word.map List.reverse).toList ++ rest
    else if c = '\\' then split (.escaped none) word text
    else if isMark c then split (.quoted c) word text
    else split .plain (some (c :: word.getD [])) text
  | .quoted _, _, [] => .error .openQuotation
  | .quoted mark, word, c :: text =>
    let word := word.getD []
    if c = mark then split .plain (some word) text
    else if c = '\\' && mark = '"' then split (.escaped (some mark)) (some word) text
    else split (.quoted mark) (some (c :: word)) text
  | .escaped _, _, [] => .error .danglingEscape
  | .escaped none, word, c :: text => split .plain (some (c :: word.getD [])) text
  | .escaped (some mark), word, c :: text =>
    let word := word.getD []
    if c = '\\' || c = mark then split (.quoted mark) (some (c :: word)) text
    else split (.quoted mark) (some (c :: '\\' :: word)) text

end ShellWords

def shellWords (text : String) : Except WordsError (List String) :=
  (ShellWords.split .plain none text.toList).map (·.map String.ofList)

end NPlusOne
