import NPlusOne.Value

namespace NPlusOne

namespace Yaml

def keyPrime : Nat := twoTo 61 - 1

/-- The key of a whole number; minus one stands for no key and is passed over. -/
def signedKey (negative : Bool) (n : Nat) : Int :=
  let key : Int := n % keyPrime
  let key := if negative then -key else key
  if key = -1 then -2 else key

def numberKey? : Value → Option Int
  | .int n => some (signedKey (n < 0) n.natAbs)
  | .bool b => some (if b then 1 else 0)
  | .float (.infinite negative) => some (if negative then -314159 else 314159)
  | .float (.finite negative mantissa exponent) =>
    some (signedKey negative (mantissa * twoTo (exponent.emod 61).toNat))
  | _ => none

/-- The number of places for so many members: eight, or more than twice as many. -/
def placeCount (members : Nat) : Nat :=
  if members * 5 < 21 then 8 else twoTo (Nat.log2 (2 * members) + 1)

/-- The place of a key in the table: the first free one of ten in a row where there are so many, or
else of one, and then on from another row. -/
def placeOf (table : Array (Option Value)) : Nat → (place shift : Nat) → Nat
  | 0, place, _ => place
  | fuel + 1, place, shift =>
    let row := if place + 10 ≤ table.size then 10 else 1
    match (List.range row).find? fun k => (table[place + k]?.getD none).isNone with
    | some k => place + k
    | none =>
      let shift := shift / 32
      placeOf table fuel ((place * 5 + 1 + shift) % table.size) shift

/-- Puts a member into the table: at the remainder of its key or, if that is taken, further on. -/
def seat (table : Array (Option Value)) (member : Value × Int) : Array (Option Value) :=
  let key := (member.2.emod (twoTo 64)).toNat
  table.set! (placeOf table (table.size + 16) (key % table.size) key) (some member.1)

/-- The members of a set in their order. Members other than numbers stay as they came. -/
def listed (members : List Value) : List Value :=
  match members.mapM fun v => (numberKey? v).map (v, ·) with
  | some keyed =>
    let table := Array.replicate (placeCount members.length) none
    ((keyed.foldl seat table).toList).filterMap id
  | none => members

end Yaml

end NPlusOne
