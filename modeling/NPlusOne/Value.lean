import NPlusOne.Double.Shortest
import NPlusOne.Failure
import NPlusOne.Moment
import NPlusOne.Text.Quoted

namespace NPlusOne

/-- A value of a configuration file. A map keeps its keys in the order in which they came.

A value that holds itself is a knot: a number of cells, and which of them is meant. Inside a cell a
link stands for another cell of the knot; there are no links elsewhere. -/
inductive Value where
  | null
  | bool (b : Bool)
  | int (n : Int)
  | float (x : Double)
  | text (s : String)
  | bytes (data : List UInt8)
  | moment (m : Moment)
  | list (items : List Value)
  | tuple (items : List Value)
  | set (members : List Value)
  | map (entries : List (Value × Value))
  | knot (cells : List Value) (index : Nat)
  | link (index : Nat)
  deriving Repr

namespace Value

mutual

def mapLinks (f : Nat → Value) : Value → Value
  | link n => f n
  | list items => list (mapLinksItems f items)
  | tuple items => tuple (mapLinksItems f items)
  | map entries => map (mapLinksEntries f entries)
  | v => v

def mapLinksItems (f : Nat → Value) : List Value → List Value
  | [] => []
  | v :: rest => mapLinks f v :: mapLinksItems f rest

def mapLinksEntries (f : Nat → Value) : List (Value × Value) → List (Value × Value)
  | [] => []
  | (k, v) :: rest => (mapLinks f k, mapLinks f v) :: mapLinksEntries f rest

end

/-- The outermost list, tuple or map of a knot; every other value is its own. -/
def unfold : Value → Value
  | knot cells n => (cells[n]?.getD null).mapLinks (knot cells)
  | v => v

/-- Missing, false, zero and empty values count as not given. -/
def isTruthy (v : Value) : Bool :=
  match v.unfold with
  | null => false
  | bool b => b
  | int n => n ≠ 0
  | float x => !x.isZero
  | text s => s ≠ ""
  | bytes data => !data.isEmpty
  | list items => !items.isEmpty
  | tuple items => !items.isEmpty
  | set members => !members.isEmpty
  | map entries => !entries.isEmpty
  | _ => true

mutual

/-- The text of a value as it stands inside a list or a map; links and knots are written by the two
functions. -/
def quotedWith (onLink : Nat → String) (onKnot : List Value → Nat → String) : Value → String
  | null => "None"
  | bool b => if b then "True" else "False"
  | int n => toString n
  | float x => x.text
  | text s => Text.quote s
  | bytes data => Text.quoteBytes data
  | moment m => m.quoted
  | list items => "[" ++ quotedItems onLink onKnot items ++ "]"
  | tuple [v] => "(" ++ quotedWith onLink onKnot v ++ ",)"
  | tuple items => "(" ++ quotedItems onLink onKnot items ++ ")"
  | set [] => "set()"
  | set members => "\x7b" ++ quotedItems onLink onKnot members ++ "\x7d"
  | map entries => "\x7b" ++ quotedEntries onLink onKnot entries ++ "\x7d"
  | knot cells n => onKnot cells n
  | link n => onLink n

def quotedItems (onLink : Nat → String) (onKnot : List Value → Nat → String) :
    List Value → String
  | [] => ""
  | [v] => quotedWith onLink onKnot v
  | v :: w :: rest =>
    quotedWith onLink onKnot v ++ ", " ++ quotedItems onLink onKnot (w :: rest)

def quotedEntries (onLink : Nat → String) (onKnot : List Value → Nat → String) :
    List (Value × Value) → String
  | [] => ""
  | [(k, v)] => quotedWith onLink onKnot k ++ ": " ++ quotedWith onLink onKnot v
  | (k, v) :: e :: rest =>
    quotedWith onLink onKnot k ++ ": " ++ quotedWith onLink onKnot v ++ ", " ++
      quotedEntries onLink onKnot (e :: rest)

end

def ellipsis : Value → String
  | map _ => "\x7b...\x7d"
  | tuple _ => "(...)"
  | _ => "[...]"

/-- The text of a cell of a knot. The cells that are being written are not written again; the
counter bounds how many of them there are. -/
def quotedCell (cells : List Value) : Nat → (active : List Nat) → Nat → String
  | 0, _, _ => ""
  | fuel + 1, active, n =>
    let cell := cells[n]?.getD null
    if active.contains n then cell.ellipsis
    else cell.quotedWith (quotedCell cells fuel (n :: active)) (fun _ _ => "")

def quoted (v : Value) : String :=
  v.quotedWith (fun _ => "") fun cells n => quotedCell cells (cells.length + 2) [] n

def display : Value → String
  | text s => s
  | moment m => m.text
  | v => v.quoted

mutual

/-- A whole number in the value has too many digits to be written. -/
def hasLongNumber : Value → Bool
  | int n => tenTo maxDigits ≤ n.natAbs
  | list items => anyLongNumber items
  | tuple items => anyLongNumber items
  | set members => anyLongNumber members
  | map entries => anyLongEntry entries
  | knot cells _ => anyLongNumber cells
  | _ => false

def anyLongNumber : List Value → Bool
  | [] => false
  | v :: rest => hasLongNumber v || anyLongNumber rest

def anyLongEntry : List (Value × Value) → Bool
  | [] => false
  | (k, v) :: rest => hasLongNumber k || hasLongNumber v || anyLongEntry rest

end

def shown (v : Value) : Except Failure String :=
  if v.hasLongNumber then .error (.tooManyDigits none) else .ok v.display

/-- The parts of a value: the items of a list, the keys of a map, the characters of a text, the
numbers of bytes. -/
def parts (v : Value) : Except Failure (List Value) :=
  match v.unfold with
  | list items => .ok items
  | tuple items => .ok items
  | set members => .ok members
  | map entries => .ok (entries.map Prod.fst)
  | text s => .ok (s.toList.map fun c => text (String.ofList [c]))
  | bytes data => .ok (data.map fun b => int b.toNat)
  | _ => .error .wrongKind

def size (v : Value) : Except Failure Nat :=
  v.parts.map List.length

def asText : Value → Except Failure String
  | text s => .ok s
  | _ => .error .wrongKind

theorem asText_eq_ok {v : Value} {s : String} : v.asText = .ok s ↔ v = .text s := by
  cases v <;> simp [asText]

/-- Booleans count as zero and one among the numbers. -/
def asInt? : Value → Option Int
  | int n => some n
  | bool b => some (if b then 1 else 0)
  | _ => none

mutual

/-- Equality of values, by number for booleans, whole numbers and floats. A knot equals nothing. -/
def same : Value → Value → Bool
  | null, null => true
  | text a, text b => a = b
  | bytes a, bytes b => a = b
  | moment a, moment b => a.same b
  | list as, list bs => sameItems as bs
  | tuple as, tuple bs => sameItems as bs
  | set as, set bs => as.length = bs.length && sameMembers as bs
  | map as, map bs => as.length = bs.length && sameEntries as bs
  | float a, float b => a.equals b
  | float a, int n => a.equalsInt n
  | int n, float a => a.equalsInt n
  | float a, bool b => a.equalsInt (if b then 1 else 0)
  | bool b, float a => a.equalsInt (if b then 1 else 0)
  | int a, int b => a = b
  | bool a, bool b => a = b
  | int a, bool b => a = if b then 1 else 0
  | bool a, int b => b = if a then 1 else 0
  | _, _ => false

def sameItems : List Value → List Value → Bool
  | [], [] => true
  | a :: as, b :: bs => same a b && sameItems as bs
  | _, _ => false

/-- Every member of the first set has an equal one in the second. -/
def sameMembers : List Value → List Value → Bool
  | [], _ => true
  | v :: rest, bs => (bs.any fun w => same v w) && sameMembers rest bs

/-- Every entry of the first map has an equal one in the second. -/
def sameEntries : List (Value × Value) → List (Value × Value) → Bool
  | [], _ => true
  | (k, v) :: rest, bs => (bs.any fun e => same k e.1 && same v e.2) && sameEntries rest bs

end

/-- Sets a key: a key that is there keeps its place and takes the new value. -/
def putEntry (key value : Value) : List (Value × Value) → List (Value × Value)
  | [] => [(key, value)]
  | (k, v) :: rest => if same k key then (k, value) :: rest else (k, v) :: putEntry key value rest

def find? (key : String) : List (Value × Value) → Option Value
  | [] => none
  | (k, v) :: rest => if same k (text key) then some v else find? key rest

/-- The value under a key of a map, if there is one; other kinds of value have no keys at all. -/
def member? (v : Value) (key : String) : Except Failure (Option Value) :=
  match v.unfold with
  | map entries => .ok (find? key entries)
  | _ => .error .noMember

/-- The value under a key of a map; a key that is missing counts as one with nothing. -/
def member (v : Value) (key : String) : Except Failure Value :=
  (v.member? key).map (·.getD null)

def require (v : Value) (key : String) : Except Failure Value :=
  match v.unfold with
  | map entries =>
    match find? key entries with
    | some value => .ok value
    | none => .error (.missingKey (Text.quote key))
  | _ => .error .wrongKind

end Value

end NPlusOne
