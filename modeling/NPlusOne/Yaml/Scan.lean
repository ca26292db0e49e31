import NPlusOne.Text.Utf8
import NPlusOne.Yaml.Scalar

namespace NPlusOne

namespace Yaml

/-- A place where a key may turn out to stand, once a colon follows it in the same line. -/
structure PendingKey where
  level : Nat
  token : Nat
  required : Bool
  index : Nat
  line : Nat
  column : Nat
  deriving Repr

/-- The state of a scan: the tokens that wait to be taken, how many have been taken, whether the
document has ended, how deep the flow brackets are, the indentation of the open blocks, whether a
key may begin here, and the places where keys may have begun. -/
structure ScanState where
  input : Input
  waiting : List Token := []
  taken : Nat := 0
  ended : Bool := false
  flow : Nat := 0
  indent : Int := -1
  indents : List Int := []
  keyAllowed : Bool := true
  keys : List PendingKey := []
  deriving Repr

abbrev Scan (α : Type) : Type := StateT ScanState (Except Failure) α

namespace Scan

def fail {α : Type} : Scan α := throw .notYaml

def input : Scan Input := return (← get).input

def moveTo (i : Input) : Scan Unit :=
  modify fun s => { s with input := i }

def advance (n : Nat) : Scan Unit :=
  modify fun s => { s with input := s.input.skip n }

def emit (t : Token) : Scan Unit :=
  modify fun s => { s with waiting := s.waiting ++ [t] }

def insert (number : Nat) (t : Token) : Scan Unit :=
  modify fun s => { s with waiting := s.waiting.insertIdx (number - s.taken) t }

def allowKey (b : Bool) : Scan Unit :=
  modify fun s => { s with keyAllowed := b }

/-- Drops the pending keys that `p` selects; a required one must not be dropped. -/
def dropKeys (p : PendingKey → Bool) : Scan Unit := do
  let s ← get
  if s.keys.any fun k => p k && k.required then fail
  set { s with keys := s.keys.filter (!p ·) }

/-- A key has to end in its line and within 1024 characters. -/
def dropStaleKeys : Scan Unit := do
  let i ← input
  dropKeys fun k => k.line ≠ i.line || 1024 < i.index - k.index

def dropKey : Scan Unit := do
  let s ← get
  dropKeys (·.level = s.flow)

/-- Notes that a key may begin here. At the indentation of its block it must. -/
def noteKey : Scan Unit := do
  let s ← get
  if s.keyAllowed then
    dropKey
    modify fun t => { t with keys := t.keys ++ [{
      level := s.flow
      token := s.taken + s.waiting.length
      required := s.flow = 0 && s.indent = s.input.column
      index := s.input.index
      line := s.input.line
      column := s.input.column }] }

def closeBlocks (column : Int) : Scan Unit := do
  let s ← get
  if s.flow = 0 then
    let stack := s.indent :: s.indents
    let closed := stack.takeWhile (column < ·)
    match stack.drop closed.length with
    | indent :: indents =>
      set { s with
        indent, indents
        waiting := s.waiting ++ closed.map fun _ => Token.blockEnd }
    | [] => fail

/-- Begins a block at the column, unless one is open there; answers whether it did. -/
def openBlock (column : Int) : Scan Bool := do
  let s ← get
  if s.indent < column then
    set { s with indent := column, indents := s.indent :: s.indents }
    return true
  else return false

/-- Skips blanks and comments up to the next token; a new line may begin with a key. -/
def skipToToken : Nat → Scan Unit
  | 0 => return ()
  | n + 1 => do
    let i := (← input).skipSpaces
    let i := if i.peek = '#' then (i.span (!endsLine ·)).2 else i
    moveTo i
    if isBreak i.peek then
      moveTo i.lineBreak.2
      if (← get).flow = 0 then allowKey true
      skipToToken n

def openFlow (t : Token) : Scan Unit := do
  noteKey
  modify fun s => { s with flow := s.flow + 1 }
  allowKey true
  advance 1
  emit t

def closeFlow (t : Token) : Scan Unit := do
  dropKey
  if (← get).flow = 0 then fail
  modify fun s => { s with flow := s.flow - 1 }
  allowKey false
  advance 1
  emit t

def flowEntry : Scan Unit := do
  allowKey true
  dropKey
  advance 1
  emit .flowEntry

def documentMark (t : Token) : Scan Unit := do
  closeBlocks (-1)
  dropKey
  allowKey false
  advance 3
  emit t

/-- In block style, begins a block of the given kind where one may begin. -/
def openBlockAt (start : Token) : Scan Unit := do
  let s ← get
  if s.flow = 0 then
    if !s.keyAllowed then fail
    if ← openBlock s.input.column then emit start

def blockEntry : Scan Unit := do
  openBlockAt .blockSequenceStart
  allowKey true
  dropKey
  advance 1
  emit .blockEntry

def explicitKey : Scan Unit := do
  openBlockAt .blockMappingStart
  allowKey ((← get).flow = 0)
  dropKey
  advance 1
  emit .key

/-- A colon: it makes a key of the pending place, if there is one. -/
def mappingValue : Scan Unit := do
  let s ← get
  match s.keys.find? (·.level = s.flow) with
  | some k =>
    set { s with keys := s.keys.filter (·.level ≠ s.flow) }
    insert k.token .key
    if s.flow = 0 then
      if ← openBlock k.column then insert k.token .blockMappingStart
    allowKey false
  | none =>
    openBlockAt .blockMappingStart
    allowKey (s.flow = 0)
    dropKey
  advance 1
  emit .value

def anchorName : Scan String := do
  let (name, i) := (← input).next.span isNameChar
  if name.isEmpty then fail
  if !(endsWord i.peek || "?:,]\x7d%@`".toList.contains i.peek) then fail
  moveTo i
  return String.ofList name

def percentBytes : List Char → Option (List UInt8 × List Char)
  | '%' :: a :: b :: rest => do
    let n ← Json.hexNumber? [a, b]
    let (bytes, rest) ← percentBytes rest
    return (n.toUInt8 :: bytes, rest)
  | '%' :: _ => none
  | rest => some ([], rest)

def addressChars : Nat → List Char → Option (List Char)
  | 0, _ => none
  | _ + 1, [] => some []
  | n + 1, c :: rest =>
    if c = '%' then do
      let (bytes, rest) ← percentBytes (c :: rest)
      let chars ← Utf8.decode? bytes
      let more ← addressChars n rest
      return chars ++ more
    else do
      let more ← addressChars n rest
      return c :: more

def address : Scan String := do
  let (raw, i) := (← input).span isAddressChar
  if raw.isEmpty then fail
  match addressChars (raw.length + 1) raw with
  | some text =>
    moveTo i
    return String.ofList text
  | none => fail

/-- A handle: an exclamation mark alone before a blank, or two with a name between them. -/
def tagHandle : Scan String := do
  let i ← input
  if i.peek ≠ '!' then fail
  if i.peekAt 1 = ' ' then
    moveTo i.next
    return "!"
  let (name, j) := i.next.span isNameChar
  if j.peek ≠ '!' then fail
  moveTo j.next
  return "!" ++ String.ofList name ++ "!"

def endsTag (c : Char) : Bool :=
  c = ' ' || endsLine c

def tag : Scan Token := do
  let i ← input
  let c := i.peekAt 1
  let result ←
    if c = '<' then do
      advance 2
      let suffix ← address
      if (← input).peek ≠ '>' then fail
      advance 1
      pure (Token.tag none suffix)
    else if endsWord c then do
      advance 1
      pure (Token.tag none "!")
    else do
      let handle ←
        if (i.next.rest.takeWhile (!endsTag ·)).contains '!' then tagHandle
        else do
          advance 1
          pure "!"
      pure (Token.tag (some handle) (← address))
  if !endsTag (← input).peek then fail
  return result

def number : Scan Nat := do
  let (digits, i) := (← input).span Char.isDigit
  if digits.isEmpty then fail
  if maxDigits < digits.length then throw (.tooManyDigits (some digits.length))
  moveTo i
  return Numeral.natural 10 digits

def spaces : Scan Unit := do
  moveTo (← input).skipSpaces

def versionDirective : Scan Directive := do
  spaces
  let major ← number
  if (← input).peek ≠ '.' then fail
  advance 1
  let minor ← number
  if !endsTag (← input).peek then fail
  return .version major minor

def tagDirective : Scan Directive := do
  spaces
  let handle ← tagHandle
  if (← input).peek ≠ ' ' then fail
  spaces
  let lead ← address
  if !endsTag (← input).peek then fail
  return .tag handle lead

def directive : Scan Unit := do
  closeBlocks (-1)
  dropKey
  allowKey false
  let (name, i) := (← input).next.span isNameChar
  if name.isEmpty || !endsTag i.peek then fail
  moveTo i
  let d ← match String.ofList name with
    | "YAML" => versionDirective
    | "TAG" => tagDirective
    | _ => do
      moveTo ((← input).span (!endsLine ·)).2
      pure .other
  match emptyLine (← input) with
  | .ok i => moveTo i
  | .error e => throw e
  emit (.directive d)

def keyPart (t : Scan Token) : Scan Unit := do
  noteKey
  allowKey false
  emit (← t)

def quoted (double : Bool) : Scan Token := do
  let (text, i) ← quotedScalar double (← input)
  moveTo i
  return .scalar text false

def block (folded : Bool) : Scan Unit := do
  allowKey true
  dropKey
  let s ← get
  let (text, i) ← blockScalar folded s.indent s.input
  moveTo i
  emit (.scalar text false)

def plain : Scan Unit := do
  noteKey
  allowKey false
  let s ← get
  let (text, newLine, i) := plainScalar (s.flow ≠ 0) (s.indent + 1) s.input
  moveTo i
  allowKey newLine
  emit (.scalar text true)

def isIndicator (c : Char) : Bool :=
  "-?:,[]\x7b\x7d#&*!|>'\"%@`".toList.contains c

def beginsPlain (flow : Bool) (c d : Char) : Bool :=
  (!endsWord c && !isIndicator c) ||
    (!endsWord d && (c = '-' || (!flow && (c = '?' || c = ':'))))

/-- Reads a token that begins with `c`, which alone does not tell what it is. -/
def openToken (c : Char) : Scan Unit := do
  let s ← get
  let i := s.input
  let flow : Bool := s.flow ≠ 0
  let stands : Bool := endsWord (i.peekAt 1)
  let first : Bool := i.column = 0
  if first && i.atMarks '-' then documentMark .documentStart
  else if first && i.atMarks '.' then documentMark .documentEnd
  else if c = '-' && stands then blockEntry
  else if c = '?' && (flow || stands) then explicitKey
  else if c = ':' && (flow || stands) then mappingValue
  else if c = '|' && !flow then block false
  else if c = '>' && !flow then block true
  else if beginsPlain flow c (i.peekAt 1) then plain
  else fail

def token : Scan Unit := do
  let i ← input
  match i.peek with
  | '%' => if i.column = 0 then directive else fail
  | '[' => openFlow .flowSequenceStart
  | '\x7b' => openFlow .flowMappingStart
  | ']' => closeFlow .flowSequenceEnd
  | '\x7d' => closeFlow .flowMappingEnd
  | ',' => flowEntry
  | '*' => keyPart (return .alias (← anchorName))
  | '&' => keyPart (return .anchor (← anchorName))
  | '!' => keyPart tag
  | '\'' => keyPart (quoted false)
  | '"' => keyPart (quoted true)
  | c => openToken c

/-- Goes on to the next token and ends the blocks that it does not belong to. -/
def approach : Scan Unit := do
  skipToToken ((← input).rest.length + 1)
  dropStaleKeys
  closeBlocks (← input).column

def finish : Scan Unit := do
  closeBlocks (-1)
  dropKey
  modify fun s => { s with ended := true, keys := [] }

def fetch : Scan Unit := do
  approach
  if (← input).rest.isEmpty then finish else token

/-- The next token is not yet known: none waits, or it may turn out to begin a key. -/
def needsMore : Scan Bool := do
  if (← get).ended then return false
  if (← get).waiting.isEmpty then return true
  dropStaleKeys
  let s ← get
  return s.keys.any (·.token = s.taken)

/-- Reads on until the next token is known; the counter bounds the steps. -/
def fill : Nat → Scan Unit
  | 0 => return ()
  | n + 1 => do
    if ← needsMore then
      fetch
      fill n

def peek : Scan (Option Token) := do
  if ← needsMore then fill ((← input).rest.length + 2)
  return (← get).waiting.head?

def drop : Scan Unit :=
  modify fun s => { s with waiting := s.waiting.tail, taken := s.taken + 1 }

end Scan

/-- The scan of a document that has not begun; a byte order mark in front of it does not count. -/
def startScan (text : List Char) : Except Failure ScanState := do
  if !text.all isAllowed then throw .notYaml
  let input : Input := ⟨text, 0, 0, 0⟩
  return { input := if input.peek = '\ufeff' then input.next else input }

end Yaml

end NPlusOne
