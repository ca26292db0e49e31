namespace NPlusOne

namespace Utf8

def isTrail (b : UInt8) : Bool :=
  0x80 ≤ b && b ≤ 0xBF

/-- The bytes that may follow a lead byte at once, and how many follow in all. A lead byte of
neither kind opens nothing. -/
def lead? (b : UInt8) : Option (Nat × (UInt8 → Bool)) :=
  if 0xC2 ≤ b && b ≤ 0xDF then some (1, isTrail)
  else if b = 0xE0 then some (2, fun c => 0xA0 ≤ c && c ≤ 0xBF)
  else if b = 0xED then some (2, fun c => 0x80 ≤ c && c ≤ 0x9F)
  else if 0xE1 ≤ b && b ≤ 0xEF then some (2, isTrail)
  else if b = 0xF0 then some (3, fun c => 0x90 ≤ c && c ≤ 0xBF)
  else if b = 0xF4 then some (3, fun c => 0x80 ≤ c && c ≤ 0x8F)
  else if 0xF1 ≤ b && b ≤ 0xF3 then some (3, isTrail)
  else none

def leadBits (n : Nat) (b : UInt8) : Nat :=
  b.toNat % (64 >>> n)

/-- The bytes that continue a sequence: the first is tested by `p`, the others are plain trail
bytes. -/
def trail : Nat → (UInt8 → Bool) → List UInt8 → List UInt8
  | 0, _, _ => []
  | _ + 1, _, [] => []
  | n + 1, p, b :: bytes => if p b then b :: trail n isTrail bytes else []

/-- The characters of a byte string; `none` marks each maximal stretch that is no character. -/
def marks : List UInt8 → List (Option Char)
  | [] => []
  | b :: bytes =>
    if b < 0x80 then some (Char.ofNat b.toNat) :: marks bytes
    else match lead? b with
      | none => none :: marks bytes
      | some (n, p) =>
        let rest := trail n p bytes
        let mark :=
          if rest.length = n then
            some (Char.ofNat (rest.foldl (fun v c => v * 64 + c.toNat % 64) (leadBits n b)))
          else none
        mark :: marks (bytes.drop rest.length)
termination_by bytes => bytes.length
decreasing_by all_goals simp [List.length_drop]; try omega

def decode? (bytes : List UInt8) : Option (List Char) :=
  (marks bytes).mapM id

def decodeDropping (bytes : List UInt8) : List Char :=
  (marks bytes).filterMap id

/-- The text with a replacement character for every stretch that is no character. -/
def decodeReplacing (bytes : List UInt8) : List Char :=
  (marks bytes).map (·.getD '\ufffd')

end Utf8

end NPlusOne
