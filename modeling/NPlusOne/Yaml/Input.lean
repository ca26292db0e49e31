import NPlusOne.Failure

namespace NPlusOne

namespace Yaml

/-- The end of the input reads as this character, which no document holds. -/
def endMark : Char := '\x00'

def isBreak (c : Char) : Bool :=
  c = '\n' || c = '\u0085' || c = '\u2028' || c = '\u2029'

def endsLine (c : Char) : Bool :=
  c = endMark || isBreak c

def endsWord (c : Char) : Bool :=
  c = ' ' || c = '\t' || endsLine c

def isAllowed (c : Char) : Bool :=
  let n := c.toNat
  n = 0x09 || n = 0x0A || n = 0x0D || (0x20 ≤ n && n ≤ 0x7E) || n = 0x85 ||
    (0xA0 ≤ n && n ≤ 0xD7FF) || (0xE000 ≤ n && n ≤ 0xFFFD) || 0x10000 ≤ n

/-- What is left of a document, and where that begins: behind how many characters, in which line
and column. -/
structure Input where
  rest : List Char
  index : Nat := 0
  line : Nat := 0
  column : Nat := 0
  deriving Repr

namespace Input

def peek (i : Input) : Char :=
  i.rest.headD endMark

def peekAt (i : Input) (n : Nat) : Char :=
  i.rest.getD n endMark

/-- Behind the next character. A byte order mark takes no column. -/
def next (i : Input) : Input :=
  match i.rest with
  | [] => i
  | c :: rest =>
    if isBreak c then ⟨rest, i.index + 1, i.line + 1, 0⟩
    else ⟨rest, i.index + 1, i.line, if c = '\ufeff' then i.column else i.column + 1⟩

def skip (i : Input) : Nat → Input
  | 0 => i
  | n + 1 => i.next.skip n

def span (i : Input) (p : Char → Bool) : List Char × Input :=
  let found := i.rest.takeWhile p
  (found, i.skip found.length)

def skipSpaces (i : Input) : Input :=
  (i.span (· = ' ')).2

def lineBreak (i : Input) : List Char × Input :=
  let c := i.peek
  if c = '\n' || c = '\u0085' then (['\n'], i.next)
  else if c = '\u2028' || c = '\u2029' then ([c], i.next)
  else ([], i)

def atMarks (i : Input) (c : Char) : Bool :=
  i.rest.take 3 = [c, c, c] && endsWord (i.peekAt 3)

def atSeparator (i : Input) : Bool :=
  i.atMarks '-' || i.atMarks '.'

end Input

end Yaml

end NPlusOne
