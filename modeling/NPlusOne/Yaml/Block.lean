import NPlusOne.Value
import NPlusOne.Yaml.Plain

namespace NPlusOne

namespace Yaml

/-- What has been written, the column that is next, whether a blank stands before it, and whether
only indentation and list marks stand before it. -/
structure Page where
  text : String := ""
  column : Nat := 0
  afterBlank : Bool := true
  afterIndent : Bool := true
  deriving Repr

namespace Page

def width : Nat := 80

def put (p : Page) (part : List Char) : Page :=
  { p with text := p.text ++ String.ofList part, column := p.column + part.length }

def breakWith (p : Page) (c : Char) : Page :=
  { text := p.text.push c, column := 0, afterBlank := true, afterIndent := true }

def indent (p : Page) (column : Nat) : Page :=
  let p := if !p.afterIndent || column < p.column || (p.column = column && !p.afterBlank)
    then p.breakWith '\n' else p
  if p.column < column then
    { p.put (List.replicate (column - p.column) ' ') with afterBlank := true }
  else p

def mark (p : Page) (c : Char) (afterBlank afterIndent : Bool) : Page :=
  let p := p.put (if p.afterBlank then [c] else [' ', c])
  { p with afterBlank, afterIndent := p.afterIndent && afterIndent }

def closeMark (p : Page) (c : Char) : Page :=
  { p.put [c] with afterBlank := false, afterIndent := false }

def continued (p : Page) (column : Nat) : Page :=
  { p.indent column with afterBlank := false, afterIndent := false }

end Page

structure Traits where
  indicators : Bool
  breaks : Bool
  special : Bool
  edgeBlank : Bool
  spaceAfterBreak : Bool
  breakAfterSpace : Bool
  deriving DecidableEq, Repr

/-- The characters that are written as they are. -/
def isClear (c : Char) : Bool :=
  let n := Text.code c
  c = '\n' || (0x20 ≤ n && n ≤ 0x7E) ||
    ((n = 0x85 || (0xA0 ≤ n && n ≤ 0xD7FF) || (0xE000 ≤ n && n ≤ 0xFFFD) ||
      (0x10000 ≤ n && n < 0x10FFFF)) && n ≠ 0xFEFF)

/-- Whether `c` is taken for a sign of the layout, when `before` stands before it and `after`
behind; both are the end mark at the ends of the text. -/
def isSignAt (first : Bool) (before c after : Char) : Bool :=
  if first then
    "#,[]\x7b\x7d&*!|>'\"%@`".toList.contains c ||
      ((c = '?' || c = ':' || c = '-') && endsWord after)
  else (c = ':' && endsWord after) || (c = '#' && (endsWord before || before = '\r'))

def hasSign (first : Bool) (before : Char) : List Char → Bool
  | [] => false
  | c :: rest =>
    let after := rest.headD endMark
    isSignAt first before c (if after = '\r' then '\n' else after) || hasSign false c rest

def hasPair (p q : Char → Bool) : List Char → Bool
  | a :: b :: rest => (p a && q b) || hasPair p q (b :: rest)
  | _ => false

def traits (text : List Char) : Traits :=
  let isEdge (c : Char) : Bool := c = ' ' || isBreak c
  { indicators := text.take 3 = ['-', '-', '-'] || text.take 3 = ['.', '.', '.'] ||
      hasSign true endMark text
    breaks := text.any isBreak
    special := text.any (!isClear ·)
    edgeBlank := (text.head?.any isEdge) || (text.getLast?.any isEdge)
    spaceAfterBreak := hasPair isBreak (· = ' ') text
    breakAfterSpace := hasPair (· = ' ') isBreak text }

inductive TextStyle where
  | plain
  | single
  | double
  deriving DecidableEq, Repr

/-- A text is written as plainly as it can be without being taken for something else. -/
def textStyle (isKey : Bool) (text : List Char) : TextStyle :=
  let t := traits text
  if plainTag text = coreTag "str" && !t.indicators && !t.breaks && !t.special && !t.edgeBlank
  then .plain
  else if !t.spaceAfterBreak && !t.breakAfterSpace && !t.special && !(isKey && t.breaks)
  then .single
  else .double

inductive RunKind where
  | word
  | space
  | lineEnd
  deriving DecidableEq, Repr

def RunKind.of (c : Char) : RunKind :=
  if c = ' ' then .space else if isBreak c then .lineEnd else .word

def runs : List Char → List (RunKind × List Char)
  | [] => []
  | c :: rest =>
    match runs rest with
    | [] => [(.of c, [c])]
    | (kind, run) :: more =>
      if kind = .of c then (kind, c :: run) :: more else (.of c, [c]) :: (kind, run) :: more

/-- Writes the stretches of a plain text. A single space beyond the width becomes a line break. -/
def writePlainRuns (column : Nat) (fold : Bool) : List (RunKind × List Char) → Page → Page
  | [], p => p
  | (kind, run) :: rest, p =>
    let p := if kind = .space && run.length = 1 && Page.width < p.column && fold
      then p.continued column else p.put run
    writePlainRuns column fold rest p

def writePlain (column : Nat) (fold : Bool) (text : List Char) (p : Page) : Page :=
  if text.isEmpty then p
  else
    let p := if p.afterBlank then p else p.put [' ']
    writePlainRuns column fold (runs text) { p with afterBlank := false, afterIndent := false }

/-- Writes line breaks inside single quotation marks: the first line feed is written twice. -/
def writeBreaks (column : Nat) (run : List Char) (p : Page) : Page :=
  let p := if run.head? = some '\n' then p.breakWith '\n' else p
  (run.foldl Page.breakWith p).indent column

def writeSingleRuns (column : Nat) (fold first : Bool) :
    List (RunKind × List Char) → Page → Page
  | [], p => p
  | (kind, run) :: rest, p =>
    let p := match kind with
      | .word => p.put (run.flatMap fun c => if c = '\'' then ['\'', '\''] else [c])
      | .space =>
        if run.length = 1 && Page.width < p.column && fold && !first && !rest.isEmpty
        then p.indent column else p.put run
      | .lineEnd => writeBreaks column run p
    writeSingleRuns column fold false rest p

def writeSingle (column : Nat) (fold : Bool) (text : List Char) (p : Page) : Page :=
  (writeSingleRuns column fold true (runs text) (p.mark '\'' false false)).closeMark '\''

def escapeLetters : List (Char × Char) :=
  [('\x00', '0'), ('\x07', 'a'), ('\x08', 'b'), ('\x09', 't'), ('\x0a', 'n'), ('\x0b', 'v'),
    ('\x0c', 'f'), ('\x0d', 'r'), ('\x1b', 'e'), ('"', '"'), ('\\', '\\'), ('\u0085', 'N'),
    ('\u00a0', '_'), ('\u2028', 'L'), ('\u2029', 'P')]

def needsEscape (c : Char) : Bool :=
  let n := c.toNat
  c = '"' || c = '\\' || isBreak c || n = 0xFEFF ||
    !((0x20 ≤ n && n ≤ 0x7E) || (0xA0 ≤ n && n ≤ 0xD7FF) || (0xE000 ≤ n && n ≤ 0xFFFD))

def codeDigits (width n : Nat) : List Char :=
  (Text.hexDigits width n).map Char.toUpper

def escapeText (c : Char) : List Char :=
  match escapeLetters.lookup c with
  | some letter => ['\\', letter]
  | none =>
    let n := Text.code c
    if n ≤ 0xFF then '\\' :: 'x' :: codeDigits 2 n
    else if n ≤ 0xFFFF then '\\' :: 'u' :: codeDigits 4 n
    else '\\' :: 'U' :: codeDigits 8 n

/-- Breaks a line in double quotation marks; a space that begins the next one is escaped. -/
def breakDouble (column : Nat) (pending : List Char) (next : Option Char) (p : Page) : Page :=
  let p := (p.put (pending ++ ['\\'])).continued column
  if next = some ' ' then p.put ['\\'] else p

/-- Writes the characters of a text in double quotation marks; `pending`, the last one first, was
read but not yet written. A line is broken at a space or next to an escape, but not at the ends of
the text. -/
def writeDoubleChars (column : Nat) (fold : Bool) :
    (first : Bool) → (pending : List Char) → List Char → Page → Page
  | _, pending, [], p => p.put pending.reverse
  | first, pending, c :: rest, p =>
    let inside := !first && !rest.isEmpty
    if needsEscape c then
      let p := (p.put pending.reverse).put (escapeText c)
      let p := if inside && fold && Page.width + 1 < p.column
        then breakDouble column [] rest.head? p else p
      writeDoubleChars column fold false [] rest p
    else if inside && fold && (c = ' ' || pending.isEmpty) &&
        Page.width < p.column + pending.length then
      writeDoubleChars column fold false [c] rest (breakDouble column pending.reverse (some c) p)
    else writeDoubleChars column fold false (c :: pending) rest p

def writeDouble (column : Nat) (fold : Bool) (text : List Char) (p : Page) : Page :=
  (writeDoubleChars column fold true [] text (p.mark '"' false false)).closeMark '"'

/-- Writes a text in its style; a key is not broken into lines. -/
def writeText (column : Nat) (isKey : Bool) (text : List Char) (p : Page) : Page :=
  match textStyle isKey text with
  | .plain => writePlain column (!isKey) text p
  | .single => writeSingle column (!isKey) text p
  | .double => writeDouble column (!isKey) text p

/-- The text of a float; a power of ten always stands behind a point. -/
def floatText : Double → String
  | .nan => ".nan"
  | .infinite negative => if negative then "-.inf" else ".inf"
  | x =>
    let text := x.text.toList
    if text.contains '.' then x.text
    else String.ofList (text.flatMap fun c => if c = 'e' then ['.', '0', 'e'] else [c])

def atomText : Value → String
  | .null => "null"
  | .bool b => if b then "true" else "false"
  | .int n => toString n
  | .float x => floatText x
  | v => v.display

def tagLength : Value → Nat
  | .null => 6
  | .bool _ => 6
  | .float _ => 7
  | .moment _ => 11
  | _ => 5

def isSimpleKey : Value → Bool
  | .text s => s ≠ "" && !s.toList.any isBreak && tagLength (.text s) + s.length < 128
  | .list items => items.isEmpty
  | .map entries => entries.isEmpty
  | v => tagLength v + (atomText v).length < 128

/-- Where a node stands: the column of the block around it, if there is one, and whether it is part
of a map. -/
structure Context where
  column : Option Nat
  inMap : Bool
  isKey : Bool

def Context.inner (c : Context) : Nat :=
  match c.column with
  | some n => n + 2
  | none => 0

def Context.hanging (c : Context) : Nat :=
  (c.column.getD 0) + 2

mutual

def write (c : Context) : Value → Page → Page
  | .text s, p => writeText c.hanging c.isKey s.toList p
  | .list [], p => (p.mark '[' true false).closeMark ']'
  | .map [], p => (p.mark '\x7b' true false).closeMark '\x7d'
  | .list items, p =>
    let column := if c.inMap && !p.afterIndent then c.column.getD 0 else c.inner
    writeItems column items p
  | .map entries, p => writeEntries c.inner entries p
  | v, p => writePlain c.hanging (!c.isKey) (atomText v).toList p

def writeItems (column : Nat) : List Value → Page → Page
  | [], p => p
  | v :: rest, p =>
    let p := (p.indent column).mark '-' false true
    writeItems column rest (write ⟨some column, false, false⟩ v p)

/-- Writes the entries of a map, each in a line of its own. A key that is too long for that has a
line to itself, behind a question mark. -/
def writeEntries (column : Nat) : List (Value × Value) → Page → Page
  | [], p => p
  | (k, v) :: rest, p =>
    let p := p.indent column
    let p := if isSimpleKey k then
        (write ⟨some column, true, true⟩ k p).closeMark ':'
      else
        let p := write ⟨some column, true, false⟩ k (p.mark '?' false true)
        (p.indent column).mark ':' false true
    writeEntries column rest (write ⟨some column, true, false⟩ v p)

end

def render (v : Value) : String :=
  ((write ⟨none, false, false⟩ v {}).indent 0).text

end Yaml

end NPlusOne
