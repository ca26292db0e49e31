namespace NPlusOne

namespace Base64

def sixBits? (c : Char) : Option Nat :=
  let n := c.toNat
  if 'A' ≤ c && c ≤ 'Z' then some (n - 65)
  else if 'a' ≤ c && c ≤ 'z' then some (n - 71)
  else if '0' ≤ c && c ≤ '9' then some (n + 4)
  else if c = '+' then some 62
  else if c = '/' then some 63
  else none

structure Quad where
  bits : List Nat := []
  pads : Nat := 0

def Quad.bytes (q : Quad) : List UInt8 :=
  match q.bits with
  | [a, b, c, d] =>
    [(a * 4 + b / 16).toUInt8, (b % 16 * 16 + c / 4).toUInt8, (c % 4 * 64 + d).toUInt8]
  | [a, b, c] => [(a * 4 + b / 16).toUInt8, (b % 16 * 16 + c / 4).toUInt8]
  | [a, b] => [(a * 4 + b / 16).toUInt8]
  | _ => []

/-- The bytes that a text stands for. Signs outside the alphabet do not count, and padding ends the
text once it fills a group up; a group that stays open makes the text invalid. -/
def decodeFrom (q : Quad) : List Char → Option (List UInt8)
  | [] => if q.bits.isEmpty then some [] else none
  | c :: rest =>
    if c = '=' then
      if q.bits.length < 2 then decodeFrom q rest
      else if 4 ≤ q.bits.length + q.pads + 1 then some q.bytes
      else decodeFrom { q with pads := q.pads + 1 } rest
    else match sixBits? c with
      | none => decodeFrom q rest
      | some n =>
        let q : Quad := { bits := q.bits ++ [n] }
        if q.bits.length = 4 then (decodeFrom {} rest).map (q.bytes ++ ·) else decodeFrom q rest

def decode? (text : List Char) : Option (List UInt8) :=
  decodeFrom {} text

end Base64

end NPlusOne
