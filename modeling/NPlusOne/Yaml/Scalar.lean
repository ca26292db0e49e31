import NPlusOne.Json
import NPlusOne.Yaml.Token

namespace NPlusOne

namespace Yaml

/-- The breaks behind the end of a line inside quotation marks; a document must not end there. -/
def quotedBreaks : Nat → Input → Except Failure (List Char × Input)
  | 0, _ => .error .notYaml
  | n + 1, i =>
    if i.atSeparator then .error .notYaml
    else
      let (_, i) := i.span fun c => c = ' ' || c = '\t'
      if isBreak i.peek then do
        let (b, i) := i.lineBreak
        let (rest, i) ← quotedBreaks n i
        return (b ++ rest, i)
      else .ok ([], i)

/-- A line break turns into a space, unless empty lines follow: those stay. -/
def foldBreak (b breaks : List Char) : List Char :=
  (if b ≠ ['\n'] then b else if breaks.isEmpty then [' '] else []) ++ breaks

def escapes : List (Char × Char) :=
  [('0', '\x00'), ('a', '\x07'), ('b', '\x08'), ('t', '\x09'), ('\t', '\x09'), ('n', '\x0a'),
    ('v', '\x0b'), ('f', '\x0c'), ('r', '\x0d'), ('e', '\x1b'), (' ', ' '), ('"', '"'),
    ('\\', '\\'), ('/', '/'), ('N', '\u0085'), ('_', '\u00a0'), ('L', '\u2028'), ('P', '\u2029')]

def escapeWidth? : Char → Option Nat
  | 'x' => some 2
  | 'u' => some 4
  | 'U' => some 8
  | _ => none

def codeChar (n : Nat) : Except Failure Char :=
  if 0x80000000 ≤ n then .error .codeTooLarge
  else if 0x110000 ≤ n then .error (.badNumber "chr() arg not in range(0x110000)")
  else .ok (Text.ofCode n)

def escaped (fuel : Nat) (i : Input) : Except Failure (List Char × Input) :=
  match escapes.lookup i.peek, escapeWidth? i.peek with
  | some c, _ => .ok ([c], i.next)
  | none, some width =>
    let digits := i.next.rest.take width
    match if digits.length = width then Json.hexNumber? digits else none with
    | some code => do return ([← codeChar code], i.next.skip width)
    | none => .error .notYaml
  | none, none =>
    if isBreak i.peek then quotedBreaks fuel i.lineBreak.2 else .error .notYaml

/-- Blanks inside quotation marks; a line break among them is folded. -/
def quotedBlanks (fuel : Nat) (i : Input) : Except Failure (List Char × Input) :=
  let (blanks, i) := i.span fun c => c = ' ' || c = '\t'
  if isBreak i.peek then do
    let (b, i) := i.lineBreak
    let (breaks, i) ← quotedBreaks fuel i
    return (foldBreak b breaks, i)
  else .ok (blanks, i)

def quotedText (double : Bool) : Nat → Input → Except Failure (List Char × Input)
  | 0, _ => .error .notYaml
  | n + 1, i =>
    let c := i.peek
    let andThen (part : List Char) (i : Input) : Except Failure (List Char × Input) := do
      let (text, i) ← quotedText double n i
      return (part ++ text, i)
    if c = endMark then .error .notYaml
    else if !double && c = '\'' then
      if i.peekAt 1 = '\'' then andThen ['\''] (i.skip 2) else .ok ([], i.next)
    else if double && c = '"' then .ok ([], i.next)
    else if double && c = '\\' then do
      let (part, i) ← escaped n i.next
      andThen part i
    else if endsWord c then do
      let (part, i) ← quotedBlanks n i
      andThen part i
    else andThen [c] i.next

def quotedScalar (double : Bool) (i : Input) : Except Failure (String × Input) := do
  let (text, i) ← quotedText double (i.rest.length + 1) i.next
  return (String.ofList text, i)

def isFlowMark (c : Char) : Bool :=
  c = ',' || c = '[' || c = ']' || c = '\x7b' || c = '\x7d'

def endsPlain (flow : Bool) (c d : Char) : Bool :=
  endsWord c || (c = ':' && (endsWord d || (flow && isFlowMark d))) ||
    (flow && (c = '?' || isFlowMark c))

def plainWord (flow : Bool) : List Char → List Char
  | [] => []
  | c :: rest =>
    if endsPlain flow c (rest.headD endMark) then [] else c :: plainWord flow rest

/-- The empty lines and indentation behind the end of a line in a plain text; none if a document
ends there. -/
def plainBreaks : Nat → Input → Option (List Char) × Input
  | 0, i => (some [], i)
  | n + 1, i =>
    if i.peek = ' ' then plainBreaks n i.next
    else if isBreak i.peek then
      let (b, i) := i.lineBreak
      if i.atSeparator then (none, i)
      else
        let (rest, i) := plainBreaks n i
        (rest.map (b ++ ·), i)
    else (some [], i)

def plainBlanks (i : Input) : List Char × Bool × Input :=
  let (blanks, i) := i.span (· = ' ')
  if isBreak i.peek then
    let (b, i) := i.lineBreak
    if i.atSeparator then ([], true, i)
    else
      match plainBreaks (i.rest.length + 1) i with
      | (none, i) => ([], true, i)
      | (some breaks, i) => (foldBreak b breaks, true, i)
  else (blanks, false, i)

/-- The words of a plain text with what stands between them. The flag tells that a line ended last
of all. -/
def plainText (flow : Bool) (indent : Int) : Nat → (blanks : List Char) → Bool → Input →
    List Char × Bool × Input
  | 0, _, newLine, i => ([], newLine, i)
  | n + 1, blanks, newLine, i =>
    let word := plainWord flow i.rest
    if i.peek = '#' || word.isEmpty then ([], newLine, i)
    else
      let (next, newLine, i) := plainBlanks (i.skip word.length)
      if next.isEmpty || i.peek = '#' || (!flow && (i.column : Int) < indent)
      then (blanks ++ word, newLine, i)
      else
        let (text, newLine, i) := plainText flow indent n next newLine i
        (blanks ++ word ++ text, newLine, i)

def plainScalar (flow : Bool) (indent : Int) (i : Input) : String × Bool × Input :=
  let (text, newLine, i) := plainText flow indent (i.rest.length + 1) [] false i
  (String.ofList text, newLine, i)

/-- Skips the indentation of a line in a block, at most `indent` columns of it. -/
def skipIndent (indent : Nat) (i : Input) : Input :=
  i.skip ((i.rest.take (indent - i.column)).takeWhile (· = ' ')).length

def blockBreaks (indent : Nat) : Nat → Input → List Char × Input
  | 0, i => ([], i)
  | n + 1, i =>
    let i := skipIndent indent i
    if isBreak i.peek then
      let (b, i) := i.lineBreak
      let (rest, i) := blockBreaks indent n i
      (b ++ rest, i)
    else ([], i)

/-- The empty lines before a block, and the widest indentation among them and the first line. -/
def blockMargin : Nat → (widest : Nat) → Input → List Char × Nat × Input
  | 0, widest, i => ([], widest, i)
  | n + 1, widest, i =>
    if i.peek = ' ' then blockMargin n (max widest i.next.column) i.next
    else if isBreak i.peek then
      let (b, i) := i.lineBreak
      let (rest, widest, i) := blockMargin n widest i
      (b ++ rest, widest, i)
    else ([], widest, i)

/-- The lines of a block up to the last one; then that line's break and the empty lines behind
it. -/
def blockText (folded : Bool) (indent : Nat) : Nat → (breaks : List Char) → Input →
    List Char × (List Char × List Char) × Input
  | 0, breaks, i => ([], ([], breaks), i)
  | n + 1, breaks, i =>
    let isInside (i : Input) : Bool := i.column = indent && i.peek ≠ endMark
    let isIndented (i : Input) : Bool := i.peek = ' ' || i.peek = '\t'
    if isInside i then
      let (line, j) := i.span (!endsLine ·)
      let (b, j) := j.lineBreak
      let (next, j) := blockBreaks indent n j
      if isInside j then
        let joint :=
          if folded && b = ['\n'] && !isIndented i && !isIndented j
          then if next.isEmpty then [' '] else []
          else b
        let (text, tail, j) := blockText folded indent n next j
        (breaks ++ line ++ joint ++ text, tail, j)
      else (breaks ++ line, (b, next), j)
    else ([], ([], breaks), i)

inductive Chomping where
  | strip
  | clip
  | keep
  deriving DecidableEq, Repr

def chomping? : Char → Option Chomping
  | '+' => some .keep
  | '-' => some .strip
  | _ => none

def width? (c : Char) : Option Nat :=
  if '0' ≤ c && c ≤ '9' then some (c.toNat - 48) else none

def blockHeader (i : Input) : Except Failure (Chomping × Option Nat × Input) := do
  let (chomping, i) := match chomping? i.peek with
    | some c => (some c, i.next)
    | none => (none, i)
  let (width, i) := match width? i.peek with
    | some w => (some w, i.next)
    | none => (none, i)
  let (chomping, i) := match chomping, width, chomping? i.peek with
    | none, some _, some c => (some c, i.next)
    | _, _, _ => (chomping, i)
  if width = some 0 then throw .notYaml
  if !(i.peek = ' ' || endsLine i.peek) then throw .notYaml
  return (chomping.getD .clip, width, i)

def emptyLine (i : Input) : Except Failure Input :=
  let i := i.skipSpaces
  let i := if i.peek = '#' then (i.span (!endsLine ·)).2 else i
  if endsLine i.peek then .ok i.lineBreak.2 else .error .notYaml

/-- A text in the lines of a block that is indented deeper than `indent`. -/
def blockScalar (folded : Bool) (indent : Int) (i : Input) : Except Failure (String × Input) := do
  let (chomping, width, i) ← blockHeader i.next
  let i ← emptyLine i
  let least := (max (indent + 1) 1).toNat
  let fuel := i.rest.length + 1
  let (column, breaks, i) := match width with
    | some w =>
      let column := least + w - 1
      let (breaks, i) := blockBreaks column fuel i
      (column, breaks, i)
    | none =>
      let (breaks, widest, i) := blockMargin fuel 0 i
      (max least widest, breaks, i)
  let (text, (b, rest), i) := blockText folded column fuel breaks i
  let tail := match chomping with
    | .strip => []
    | .clip => b
    | .keep => b ++ rest
  return (String.ofList (text ++ tail), i)

end Yaml

end NPlusOne
