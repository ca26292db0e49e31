import NPlusOne.Numeral

namespace NPlusOne

/-- The value of an option that may be left out. Two dashes in its place make it empty. -/
inductive Given (α : Type) where
  | absent
  | empty
  | value (a : α)
  deriving DecidableEq, Repr

structure CommandLine where
  files : List String := []
  config : Given String := .absent
  includes : List (Option String) := []
  standard : Given String := .absent
  jobs : Given Int := .absent
  excel : Given String := .absent
  verbose : Bool := false
  initConfig : Given String := .absent
  deriving DecidableEq, Repr

namespace CommandLine

/-- Why a command line is not carried out. -/
inductive Stop where
  | help
  | ambiguous (argument : String) (options : List String)
  | valueMissing (option : String)
  | valueIgnored (option value : String)
  | noNumber (option value : String)
  | unknown (arguments : List String)
  deriving DecidableEq, Repr

def usage : String :=
  "usage: queryloop [-h] [-c CONFIG] [-I DIR] [--std STD] [-j JOBS] [--excel OUTPUT] [-v] " ++
    "[--init-config PROJECT_DIR] [files ...]"

/-- The line that tells what is wrong; for help there is none. -/
def Stop.message : Stop → String
  | .help => ""
  | .ambiguous argument options =>
    "queryloop: error: ambiguous option: " ++ argument ++ " could match " ++
      ", ".intercalate options
  | .valueMissing option => "queryloop: error: argument " ++ option ++ ": expected one argument"
  | .valueIgnored option value =>
    "queryloop: error: argument " ++ option ++ ": ignored explicit argument " ++ Text.quote value
  | .noNumber option value =>
    "queryloop: error: argument " ++ option ++ ": invalid int value: " ++ Text.quote value
  | .unknown arguments =>
    "queryloop: error: unrecognized arguments: " ++ " ".intercalate arguments

def Stop.code : Stop → Int
  | .help => 0
  | _ => 2

inductive Action where
  | help
  | config
  | includeDirectory
  | standard
  | jobs
  | excel
  | verbose
  | initConfig
  deriving DecidableEq, Repr

def Action.all : List Action :=
  [.help, .config, .includeDirectory, .standard, .jobs, .excel, .verbose, .initConfig]

def Action.names : Action → List String
  | .help => ["-h", "--help"]
  | .config => ["-c", "--config"]
  | .includeDirectory => ["-I", "--include"]
  | .standard => ["--std"]
  | .jobs => ["-j", "--jobs"]
  | .excel => ["--excel"]
  | .verbose => ["-v", "--verbose"]
  | .initConfig => ["--init-config"]

def Action.takesValue : Action → Bool
  | .help => false
  | .verbose => false
  | _ => true

def Action.title (a : Action) : String :=
  "/".intercalate a.names

def options : List (String × Action) :=
  Action.all.flatMap fun a => a.names.map fun name => (name, a)

inductive Piece where
  | value
  | separator
  /-- An option and the value that it brings along; an option that nobody knows has no action. -/
  | option (action : Option Action) (name : String) (value : Option String)
  deriving DecidableEq, Repr

def Piece.isOption : Piece → Bool
  | .option _ _ _ => true
  | _ => false

/-- A minus sign and digits, perhaps with a point. A line feed at the end does not count. -/
def isNegativeNumber (text : List Char) : Bool :=
  match if text.getLast? = some '\n' then text.dropLast else text with
  | '-' :: rest =>
    let whole := rest.takeWhile Text.isDigit
    match rest.drop whole.length with
    | [] => !whole.isEmpty
    | '.' :: places => !places.isEmpty && places.all Text.isDigit
    | _ => false
  | _ => false

/-- The text before the first equals sign, and what follows the sign if there is one. -/
def splitValue (argument : String) : String × Option String :=
  let name := argument.toList.takeWhile (· ≠ '=')
  match argument.toList.drop name.length with
  | [] => (argument, none)
  | _ :: value => (String.ofList name, some (String.ofList value))

/-- The options that an argument may mean: a long name may be cut short, and behind a short name its
value may follow at once. -/
def candidates (argument : String) : List (String × Action × Option String) :=
  if argument.startsWith "--" then
    let (lead, value) := splitValue argument
    (options.filter fun o => o.1.startsWith lead).map fun o => (o.1, o.2, value)
  else
    let name := String.ofList (argument.toList.take 2)
    (options.filter fun o => o.1 = name).map fun o =>
      (o.1, o.2, some (String.ofList (argument.toList.drop 2)))

def classify (argument : String) : Except Stop Piece :=
  if !argument.startsWith "-" then .ok .value
  else match options.lookup argument with
    | some action => .ok (.option (some action) argument none)
    | none =>
      if argument.length = 1 then .ok .value
      else
        let (name, value) := splitValue argument
        match if value.isSome then options.lookup name else none with
        | some action => .ok (.option (some action) name value)
        | none =>
          match candidates argument with
          | [(name, action, value)] => .ok (.option (some action) name value)
          | [] =>
            if isNegativeNumber argument.toList || argument.toList.contains ' ' then .ok .value
            else .ok (.option none argument none)
          | several => .error (.ambiguous argument (several.map (·.1)))

/-- All arguments with what they are; behind two dashes there are no options. -/
def classifyAll : List String → Except Stop (List (String × Piece))
  | [] => .ok []
  | argument :: rest => do
    if argument = "--" then
      return (argument, .separator) :: rest.map fun a => (a, .value)
    let piece ← classify argument
    return (argument, piece) :: (← classifyAll rest)

def textOf (value : String) : Given String :=
  if value = "--" then .empty else .value value

def apply (c : CommandLine) (action : Action) (value : String) : Except Stop CommandLine :=
  match action with
  | .help => .error .help
  | .config => .ok { c with config := textOf value }
  | .includeDirectory =>
    .ok { c with includes := c.includes ++ [if value = "--" then none else some value] }
  | .standard => .ok { c with standard := textOf value }
  | .jobs =>
    if value = "--" then .ok { c with jobs := .empty }
    else match Numeral.int 10 value.toList with
      | .ok n => .ok { c with jobs := .value n }
      | .error _ => .error (.noNumber action.title value)
  | .excel => .ok { c with excel := textOf value }
  | .verbose => .ok { c with verbose := true }
  | .initConfig => .ok { c with initConfig := textOf value }

def applyAll : CommandLine → List (Action × String) → Except Stop CommandLine
  | c, [] => .ok c
  | c, (action, value) :: rest => do applyAll (← c.apply action value) rest

/-- The options in one argument: short ones without a value may be joined, and the last of them may
bring its value along. Answers the options and whether the last one still needs a value. -/
def joined (action : Action) (name : String) : List Char →
    Except Stop (List (Action × String) × Option Action)
  | [] => .error (.valueIgnored action.title "")
  | c :: rest =>
    let value := String.ofList (c :: rest)
    if action.takesValue then .ok ([(action, value)], none)
    else if name.startsWith "--" then .error (.valueIgnored action.title value)
    else match options.lookup (String.ofList ['-', c]) with
      | none => .error (.valueIgnored action.title value)
      | some next =>
        match rest with
        | [] =>
          if next.takesValue then .ok ([(action, "")], some next)
          else .ok ([(action, ""), (next, "")], none)
        | d :: more => do
          let (taken, pending) ← joined next (String.ofList ['-', c]) (d :: more)
          return ((action, "") :: taken, pending)

def optionsOf (action : Action) (name : String) (value : Option String) :
    Except Stop (List (Action × String) × Option Action) :=
  match value with
  | none => if action.takesValue then .ok ([], some action) else .ok ([(action, "")], none)
  | some "" => if action.takesValue then .ok ([(action, "")], none)
      else .error (.valueIgnored action.title "")
  | some text => joined action name text.toList

/-- How far the arguments have been worked off. -/
structure Progression where
  line : CommandLine := {}
  filesTaken : Bool := false
  extras : List String := []

/-- Takes a row of values: the first row are the files. One pair of dashes among them does not
count. -/
def takeValues (s : Progression) (values : List String) : Progression :=
  if s.filesTaken then { s with extras := s.extras ++ values }
  else { s with filesTaken := true, line := { s.line with files := values.erase "--" } }

/-- Works the arguments off; `row` are the values that were met last. -/
def work : Progression → (row : List String) → List (String × Piece) → Except Stop Progression
  | s, row, [] => .ok (if row.isEmpty then s else takeValues s row)
  | s, row, (argument, .value) :: rest => work s (row ++ [argument]) rest
  | s, row, (argument, .separator) :: rest => work s (row ++ [argument]) rest
  | s, row, (argument, .option none _ _) :: rest =>
    let s := if row.isEmpty then s else takeValues s row
    work { s with extras := s.extras ++ [argument] } [] rest
  | s, row, (_, .option (some action) name value) :: rest => do
    let s := if row.isEmpty then s else takeValues s row
    match ← optionsOf action name value with
    | (taken, none) => work { s with line := ← applyAll s.line taken } [] rest
    | (taken, some last) =>
      match rest with
      | (next, .value) :: rest =>
        work { s with line := ← applyAll s.line (taken ++ [(last, next)]) } [] rest
      | _ => throw (.valueMissing last.title)

def parse (arguments : List String) : Except Stop CommandLine := do
  let s ← work {} [] (← classifyAll arguments)
  if s.extras.isEmpty then return s.line else throw (.unknown s.extras)

end CommandLine

end NPlusOne
