namespace NPlusOne

/-- A double-precision number. A finite one is its mantissa times a power of two. -/
inductive Double where
  | nan
  | infinite (negative : Bool)
  | finite (negative : Bool) (mantissa : Nat) (exponent : Int)
  deriving DecidableEq, Repr

/-- The whole number nearest to a quotient; a half goes to the even neighbour. -/
def roundDiv (num den : Nat) : Nat :=
  let q := num / den
  let r := num % den
  if 2 * r < den then q
  else if den < 2 * r then q + 1
  else if q % 2 = 0 then q else q + 1

def twoTo (n : Nat) : Nat := Nat.pow 2 n

def tenTo (n : Nat) : Nat := Nat.pow 10 n

namespace Double

def zero : Double := .finite false 0 (-1074)

def scale (num den : Nat) (exponent : Int) : Nat × Nat :=
  if 0 ≤ exponent then (num, den * twoTo exponent.toNat)
  else (num * twoTo (-exponent).toNat, den)

/-- The double nearest to a non-negative fraction; a half goes to the even mantissa. -/
def ofFraction (negative : Bool) (num den : Nat) : Double :=
  if num = 0 then .finite negative 0 (-1074)
  else
    let guess : Int := (Nat.log2 num : Int) - Nat.log2 den - 52
    let (n, d) := scale num den guess
    let exponent := max (if n < twoTo 52 * d then guess - 1 else guess) (-1074)
    let (n, d) := scale num den exponent
    let mantissa := roundDiv n d
    let (mantissa, exponent) :=
      if mantissa = twoTo 53 then (twoTo 52, exponent + 1) else (mantissa, exponent)
    if 971 < exponent then .infinite negative else .finite negative mantissa exponent

def ofInt (n : Int) : Double :=
  ofFraction (n < 0) n.natAbs 1

/-- The double nearest to a whole number that is not too large for one. -/
def ofInt? (n : Int) : Option Double :=
  match ofInt n with
  | .infinite _ => none
  | x => some x

def ofDecimal (negative : Bool) (digits : Nat) (exponent : Int) : Double :=
  if digits = 0 then .finite negative 0 (-1074)
  else
    let order := (Nat.log2 digits : Int) / 4 + exponent
    if 400 < order then .infinite negative
    else if (Nat.log2 digits : Int) / 3 + 1 + exponent < -400 then .finite negative 0 (-1074)
    else if 0 ≤ exponent then ofFraction negative (digits * tenTo exponent.toNat) 1
    else ofFraction negative digits (tenTo (-exponent).toNat)

def signed (negative : Bool) (mantissa : Nat) : Int :=
  if negative then -(mantissa : Int) else mantissa

def ofScaled (n : Int) (exponent : Int) : Double :=
  if 0 ≤ exponent then ofFraction (n < 0) (n.natAbs * twoTo exponent.toNat) 1
  else ofFraction (n < 0) n.natAbs (twoTo (-exponent).toNat)

def isNegative : Double → Bool
  | .nan => false
  | .infinite negative => negative
  | .finite negative _ _ => negative

def neg : Double → Double
  | .nan => .nan
  | .infinite negative => .infinite !negative
  | .finite negative mantissa exponent => .finite (!negative) mantissa exponent

/-- The sum, rounded. Two negative zeros make a negative zero, opposite infinities no number. -/
def add : Double → Double → Double
  | .nan, _ => .nan
  | _, .nan => .nan
  | .infinite a, .infinite b => if a = b then .infinite a else .nan
  | .infinite a, .finite _ _ _ => .infinite a
  | .finite _ _ _, .infinite b => .infinite b
  | .finite sa ma ea, .finite sb mb eb =>
    let e := min ea eb
    let n := signed sa ma * twoTo (ea - e).toNat + signed sb mb * twoTo (eb - e).toNat
    if n = 0 then .finite (sa && sb) 0 (-1074) else ofScaled n e

def sub (x y : Double) : Double :=
  x.add y.neg

/-- The product, rounded. Zero times an infinite number makes no number. -/
def mul : Double → Double → Double
  | .nan, _ => .nan
  | _, .nan => .nan
  | .infinite a, .infinite b => .infinite (a != b)
  | .infinite a, .finite b m _ => if m = 0 then .nan else .infinite (a != b)
  | .finite a m _, .infinite b => if m = 0 then .nan else .infinite (a != b)
  | .finite sa ma ea, .finite sb mb eb =>
    let e := ea + eb
    if 0 ≤ e then ofFraction (sa != sb) (ma * mb * twoTo e.toNat) 1
    else ofFraction (sa != sb) (ma * mb) (twoTo (-e).toNat)

def isZero : Double → Bool
  | .finite _ 0 _ => true
  | _ => false

def exceeds (x : Double) (n : Int) : Bool :=
  match x with
  | .nan => false
  | .infinite negative => !negative
  | .finite s m e =>
    if 0 ≤ e then n < signed s m * twoTo e.toNat
    else n * twoTo (-e).toNat < signed s m

def equalsInt (x : Double) (n : Int) : Bool :=
  match x with
  | .finite s m e =>
    if 0 ≤ e then n = signed s m * twoTo e.toNat
    else n * twoTo (-e).toNat = signed s m
  | _ => false

/-- Numerical equality: both zeros are equal and no number differs from itself. -/
def equals : Double → Double → Bool
  | .nan, _ => false
  | _, .nan => false
  | x, y => (x.isZero && y.isZero) || x = y

end Double

end NPlusOne
