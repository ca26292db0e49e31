namespace NPlusOne

namespace Text

/-- Half of a surrogate pair that stands alone is no character. It is kept as a character of the
last private area, so that a text with one in it is still a text. -/
def surrogateBase : Nat := 0x10E000

/-- The character that keeps the code of a lone half of a pair. -/
def ofSurrogate (code : Nat) : Char :=
  Char.ofNat (surrogateBase + (code - 0xD800))

def surrogate? (c : Char) : Option Nat :=
  let n := c.toNat
  if surrogateBase ≤ n && n < surrogateBase + 0x800 then some (n - surrogateBase + 0xD800) else none

def isSurrogate (c : Char) : Bool :=
  (surrogate? c).isSome

def code (c : Char) : Nat :=
  (surrogate? c).getD c.toNat

def ofCode (n : Nat) : Char :=
  if 0xD800 ≤ n && n < 0xE000 then ofSurrogate n else Char.ofNat n

/-- A text can be written as bytes if no half of a pair stands alone in it. -/
def isEncodable (text : String) : Bool :=
  !text.toList.any isSurrogate

/-- A file name may also hold the halves that stand for single bytes. -/
def isFileName (text : String) : Bool :=
  text.toList.all fun c =>
    match surrogate? c with
    | some n => 0xDC80 ≤ n && n ≤ 0xDCFF
    | none => true

end Text

end NPlusOne
