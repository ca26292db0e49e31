import NPlusOne.Double
import NPlusOne.Text

namespace NPlusOne

namespace Double

/-- The reals that round to a double: twice the lower and upper end and the value itself, all as
numerators over one denominator; the ends belong to the interval if the mantissa is even. -/
structure Rounding where
  low : Nat
  value : Nat
  high : Nat
  den : Nat
  closed : Bool

/-- The interval around a positive double. Just above a power of two the lower half is half as
wide. -/
def rounding (mantissa : Nat) (exponent : Int) : Rounding :=
  let narrow := mantissa = twoTo 52 && -1074 < exponent
  let low := 4 * mantissa - (if narrow then 1 else 2)
  let high := 4 * mantissa + 2
  let closed := mantissa % 2 = 0
  if 0 ≤ exponent then
    let f := twoTo exponent.toNat
    ⟨low * f, 4 * mantissa * f, high * f, 4, closed⟩
  else ⟨low, 4 * mantissa, high, 4 * twoTo (-exponent).toNat, closed⟩

namespace Rounding

/-- `digits · 10 ^ power` rounds to the double. -/
def holds (r : Rounding) (digits : Nat) (power : Int) : Bool :=
  let (n, d) :=
    if 0 ≤ power then (digits * tenTo power.toNat, 1) else (digits, tenTo (-power).toNat)
  let x := n * r.den
  if r.closed then r.low * d ≤ x && x ≤ r.high * d else r.low * d < x && x < r.high * d

def units (r : Rounding) (power : Int) : Nat × Nat :=
  if 0 ≤ power then (r.value, r.den * tenTo power.toNat)
  else (r.value * tenTo (-power).toNat, r.den)

/-- The decimal on the grid of `10 ^ power` that rounds to the double and lies nearest to it. -/
def onGrid? (r : Rounding) (power : Int) : Option Nat :=
  let (n, d) := r.units power
  let near := roundDiv n d
  let floor := n / d
  if r.holds near power then some near
  else if r.holds floor power then some floor
  else if r.holds (floor + 1) power then some (floor + 1)
  else none

/-- The first grid, from coarse to fine, with a decimal that rounds to the double. -/
def search (r : Rounding) : (count : Nat) → (power : Int) → Nat × Int
  | 0, power => ((r.onGrid? power).getD 0, power)
  | count + 1, power =>
    match r.onGrid? power with
    | some digits => (digits, power)
    | none => search r count (power - 1)

end Rounding

/-- The largest power of ten that is not above a positive fraction. -/
def orderOfTen (num den : Nat) : Int :=
  let guess : Int := ((Nat.log2 num : Int) - Nat.log2 den) * 30103 / 100000
  let fits (k : Int) : Bool :=
    if 0 ≤ k then den * tenTo k.toNat ≤ num else den ≤ num * tenTo (-k).toNat
  if fits (guess + 1) then guess + 1
  else if fits guess then guess
  else guess - 1

/-- The fewest decimal digits that read back as a positive double, and the power of ten of the
last one. -/
def shortest (mantissa : Nat) (exponent : Int) : Nat × Int :=
  let r := rounding mantissa exponent
  r.search 18 (orderOfTen r.value r.den)

def stripZeros : Nat → Nat → Int → Nat × Int
  | 0, digits, power => (digits, power)
  | fuel + 1, digits, power =>
    if digits ≠ 0 && digits % 10 = 0 then stripZeros fuel (digits / 10) (power + 1)
    else (digits, power)

/-- How numbers are written: which exponents go without an exponent mark, and the least number of
exponent digits. -/
structure NumberFormat where
  least : Int
  most : Int
  exponentDigits : Nat

/-- Numbers from a ten-thousandth up to below ten to the sixteenth are written out. -/
def plainFormat : NumberFormat := ⟨-4, 16, 2⟩

def layout (f : NumberFormat) (digits : Nat) (power : Int) : String :=
  let ds := toString digits
  let order := power + ds.length - 1
  if f.least ≤ order && order < f.most then
    if 0 ≤ power then ds ++ String.ofList (List.replicate power.toNat '0') ++ ".0"
    else
      let places := (-power).toNat
      let padded := Text.padLeft (places + 1) '0' ds
      let whole := padded.toList.take (padded.length - places)
      let rest := padded.toList.drop (padded.length - places)
      String.ofList (whole ++ '.' :: rest)
  else
    let head := ds.toList.take 1
    let tail := ds.toList.drop 1
    let mantissa := if tail.isEmpty then head else head ++ '.' :: tail
    let sign := if order < 0 then "e-" else "e+"
    String.ofList mantissa ++ sign ++ Text.padLeft f.exponentDigits '0' (toString order.natAbs)

def text : Double → String
  | .nan => "nan"
  | .infinite negative => if negative then "-inf" else "inf"
  | .finite negative mantissa exponent =>
    let sign := if negative then "-" else ""
    if mantissa = 0 then sign ++ "0.0"
    else
      let (digits, power) := shortest mantissa exponent
      let (digits, power) := stripZeros 20 digits power
      sign ++ layout plainFormat digits power

end Double

end NPlusOne
