import NPlusOne.Double.Shortest

namespace NPlusOne

namespace Double

/-- A number in digits: `count` of them, and the power of ten of the first. A half goes to the even
digit. -/
def significant (count mantissa : Nat) (exponent : Int) : Nat × Int :=
  if mantissa = 0 then (0, 0)
  else
    let (num, den) :=
      if 0 ≤ exponent then (mantissa * twoTo exponent.toNat, 1)
      else (mantissa, twoTo (-exponent).toNat)
    let order := orderOfTen num den
    let shift := (count : Int) - 1 - order
    let digits :=
      if 0 ≤ shift then roundDiv (num * tenTo shift.toNat) den
      else roundDiv num (den * tenTo (-shift).toNat)
    if digits = tenTo count then (tenTo (count - 1), order + 1) else (digits, order)

/-- How a number is written: with a point and places, with a power of ten, or with the one of the
two that suits it. -/
inductive NumberForm where
  | fixed
  | exponential
  | general
  deriving DecidableEq, Repr

/-- The digits with a point behind the first `whole` ones. With `bare` a point with nothing behind
it is left out. -/
def pointed (bare : Bool) (whole : Nat) (digits : List Char) : List Char :=
  if digits.length ≤ whole then if bare then digits else digits ++ ['.']
  else digits.take whole ++ '.' :: digits.drop whole

def withoutZeros (whole : Nat) (digits : List Char) : List Char :=
  digits.take whole ++ ((digits.drop whole).reverse.dropWhile (· = '0')).reverse

def paddedDigits (count n : Nat) : List Char :=
  (Text.padLeft count '0' (toString n)).toList

/-- A power of ten with its mark, its sign and two digits at least. -/
def powerText (order : Int) : List Char :=
  'e' :: (if order < 0 then '-' else '+') :: paddedDigits 2 order.natAbs

/-- A positive number without a sign. The point is always written if `keep` is set; zeros at the end
are left out in the general form, unless `keep` is set. -/
def formatFinite (form : NumberForm) (precision : Nat) (keep : Bool) (mantissa : Nat)
    (exponent : Int) : List Char :=
  match form with
  | .fixed =>
    let n := mantissa * tenTo precision
    let units :=
      if 0 ≤ exponent then n * twoTo exponent.toNat else roundDiv n (twoTo (-exponent).toNat)
    let digits := paddedDigits (precision + 1) units
    pointed (!keep) (digits.length - precision) digits
  | .exponential =>
    let (digits, order) := significant (precision + 1) mantissa exponent
    pointed (!keep) 1 (paddedDigits (precision + 1) digits) ++ powerText order
  | .general =>
    let count := max precision 1
    let (n, order) := significant count mantissa exponent
    let digits := paddedDigits count n
    if -4 ≤ order && order < count then
      let digits := List.replicate (-order).toNat '0' ++ digits
      let whole := (max order 0).toNat + 1
      pointed (!keep) whole (if keep then digits else withoutZeros whole digits)
    else pointed (!keep) 1 (if keep then digits else withoutZeros 1 digits) ++ powerText order

def formatAbs (form : NumberForm) (precision : Nat) (keep : Bool) : Double → List Char
  | .nan => ['n', 'a', 'n']
  | .infinite _ => ['i', 'n', 'f']
  | .finite _ mantissa exponent => formatFinite form precision keep mantissa exponent

def format (x : Double) (form : NumberForm) (precision : Nat) (keep : Bool) : String :=
  String.ofList ((if x.isNegative then ['-'] else []) ++ formatAbs form precision keep x)

def fixed (places : Nat) (x : Double) : String :=
  x.format .fixed places false

end Double

end NPlusOne
