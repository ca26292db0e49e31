import NPlusOne.Base64
import NPlusOne.Numeral
import NPlusOne.Text.Lower
import NPlusOne.Value
import NPlusOne.Yaml.Plain

namespace NPlusOne

namespace Yaml

def withoutGaps (text : List Char) : List Char :=
  text.filter (· ≠ '_')

def sixties (parts : List Int) : Int :=
  parts.foldl (fun n part => n * 60 + part) 0

def magnitudeOf (bare : List Char) : Except Failure Int :=
  match bare with
  | [] => throw .emptyNumber
  | ['0'] => return 0
  | '0' :: 'b' :: digits => Numeral.int 2 digits
  | '0' :: 'x' :: digits => Numeral.int 16 digits
  | '0' :: _ => Numeral.int 8 bare
  | _ =>
    if bare.contains ':' then do
      return sixties (← (Text.splitOn ':' bare).mapM (Numeral.int 10))
    else Numeral.int 10 bare

/-- The number that a text stands for: the sign goes first, then the base. -/
def intOf (text : List Char) : Except Failure Int := do
  match withoutGaps text with
  | [] => throw .emptyNumber
  | c :: rest =>
    let magnitude ← magnitudeOf (unsigned (c :: rest))
    return if c = '-' then -magnitude else magnitude

/-- Adds up the parts of a number in parts of sixty, from the last one. The weight of a part must
not lie beyond all floats. -/
def floatSixties (sum : Double) (weight : Nat) : List Double → Except Failure Double
  | [] => .ok sum
  | part :: rest =>
    match Double.ofInt? weight with
    | some w => floatSixties (sum.add (part.mul w)) (weight * 60) rest
    | none => .error .numberTooLarge

def floatBody (text : List Char) : List Char :=
  unsigned (Text.lower (withoutGaps text))

def floatOf (text : List Char) : Except Failure Double := do
  match Text.lower (withoutGaps text) with
  | [] => throw .emptyNumber
  | c :: rest =>
    let bare := unsigned (c :: rest)
    let magnitude ← match String.ofList bare with
      | ".inf" => pure (.infinite false)
      | ".nan" => pure .nan
      | _ =>
        if bare.contains ':' then do
          floatSixties .zero 1 (← (Text.splitOn ':' bare).mapM Numeral.float).reverse
        else Numeral.float bare
    return if c = '-' then magnitude.neg else magnitude

def boolOf (text : List Char) : Except Failure Bool :=
  let word := String.ofList (Text.lower text)
  if ["yes", "true", "on"].contains word then .ok true
  else if ["no", "false", "off"].contains word then .ok false
  else .error (.missingKey (Text.quote word))

def momentOf (text : List Char) : Except Failure Moment :=
  match Moment.read? (withoutLineFeed text) with
  | none => .error .noMember
  | some m =>
    match m.problem? with
    | some reason => .error (.badNumber reason)
    | none => .ok m

def bytesOf (text : List Char) : Except Failure (List UInt8) :=
  match if text.all (·.toNat < 0x80) then Base64.decode? text else none with
  | some data => .ok data
  | none => .error .notYaml

inductive AtomKind where
  | str
  | null
  | bool
  | int
  | float
  | binary
  | timestamp
  deriving DecidableEq, Repr

inductive FrameKind where
  | seq
  | map
  | set
  | pairs
  deriving DecidableEq, Repr

def atomKinds : List (String × AtomKind) :=
  [("str", .str), ("null", .null), ("bool", .bool), ("int", .int), ("float", .float),
    ("binary", .binary), ("timestamp", .timestamp)]

def frameKinds : List (String × FrameKind) :=
  [("seq", .seq), ("map", .map), ("set", .set), ("omap", .pairs), ("pairs", .pairs)]

def AtomKind.ofTag? (tag : String) : Option AtomKind :=
  (atomKinds.find? fun (name, _) => tag = coreTag name).map Prod.snd

def FrameKind.ofTag? (tag : String) : Option FrameKind :=
  (frameKinds.find? fun (name, _) => tag = coreTag name).map Prod.snd

def AtomKind.value (kind : AtomKind) (text : String) : Except Failure Value :=
  match kind with
  | .str => .ok (.text text)
  | .null => .ok .null
  | .bool => (boolOf text.toList).map .bool
  | .int => (intOf text.toList).map .int
  | .float => (floatOf text.toList).map .float
  | .binary => (bytesOf text.toList).map .bytes
  | .timestamp => (momentOf text.toList).map .moment

def FrameKind.start : FrameKind → Value
  | .map => .map []
  | .set => .set []
  | .seq => .list []
  | .pairs => .list []

end Yaml

end NPlusOne
