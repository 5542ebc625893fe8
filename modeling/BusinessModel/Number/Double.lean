/-!
Binary floating point numbers of 64 bits, as exact values: a finite number is a sign, a whole
number below `2 ^ 53` and a power of two. Rounding goes to the nearest number, of two equally near
ones to the even one.
-/

namespace BusinessModel

/-- A floating point number. -/
inductive Double where
  | nan
  | infinite (negative : Bool)
  | finite (negative : Bool) (mantissa : Nat) (exponent : Int)
deriving DecidableEq, Repr, Inhabited

namespace Double

/-- The least exponent of a finite number. -/
def minExponent : Int := -1074

/-- The largest exponent of a finite number. -/
def maxExponent : Int := 971

/-- The zero of a sign. -/
def zero (negative : Bool) : Double := .finite negative 0 minExponent

/-- The number of binary digits; none for zero. -/
def bitLength (n : Nat) : Nat := if n = 0 then 0 else n.log2 + 1

/-- The fraction `num / (den * 2 ^ e)`, its denominator kept positive. -/
def scaled (num den : Nat) (e : Int) : Nat × Nat :=
  if 0 ≤ e then (num, den * Nat.pow 2 e.toNat) else (num * Nat.pow 2 (-e).toNat, den)

/-- The whole number nearest to `num / den`; a half goes to the even neighbour. -/
def roundHalfEven (num den : Nat) : Nat :=
  let q := num / den
  let r := num % den
  if 2 * r < den then q
  else if 2 * r > den then q + 1
  else if q % 2 = 0 then q else q + 1

/-- The floating point number nearest to the fraction `num / den`. -/
def ofFraction (negative : Bool) (num den : Nat) : Double :=
  if num = 0 ∨ den = 0 then zero negative
  else
    let e := max minExponent ((num.log2 : Int) - den.log2 - 53)
    let (n, d) := scaled num den e
    let excess := bitLength (n / d) - 53
    let e := e + excess
    let (n, d) := scaled num den e
    let m := roundHalfEven n d
    let (m, e) := if m = Nat.pow 2 53 then (Nat.pow 2 52, e + 1) else (m, e)
    if e > maxExponent then .infinite negative else .finite negative m e

/-- The floating point number nearest to a whole number. -/
def ofInt (n : Int) : Double := ofFraction (n < 0) n.natAbs 1

/-- The number nearest to `digits * 10 ^ exponent`. Exponents far outside the range are answered
without computing the power. -/
def ofDecimal (negative : Bool) (digits : Nat) (exponent : Int) : Double :=
  let size : Int := bitLength digits
  if digits = 0 then zero negative
  else if exponent > 400 then .infinite negative
  else if exponent * 3 + size < -1200 then zero negative
  else if 0 ≤ exponent then ofFraction negative (digits * Nat.pow 10 exponent.toNat) 1
  else ofFraction negative digits (Nat.pow 10 (-exponent).toNat)

/-- A finite number as the fraction of an integer and a positive whole number. -/
def fraction? : Double → Option (Int × Nat)
  | .finite negative m e =>
    let m : Int := if negative then -m else m
    some (if 0 ≤ e then (m * (Nat.pow 2 e.toNat : Nat), 1) else (m, Nat.pow 2 (-e).toNat))
  | _ => none

/-- The integer that a number equals, if it equals one. -/
def toInt? (x : Double) : Option Int :=
  match x.fraction? with
  | some (n, d) => if n % d = 0 then some (n / d) else none
  | none => none

/-- A finite number without a fractional part. -/
def isWhole (x : Double) : Bool := x.toInt?.isSome

/-- Neither infinite nor undefined. -/
def isFinite : Double → Bool
  | .finite .. => true
  | _ => false

/-- The position of a number on the extended line: `none` if it is undefined. Infinities lie beyond
every finite number. -/
def compare? (x y : Double) : Option Ordering :=
  match x, y with
  | .nan, _ => none
  | _, .nan => none
  | .infinite a, .infinite b => some (compare b.toNat a.toNat)
  | .infinite negative, _ => some (if negative then .lt else .gt)
  | _, .infinite negative => some (if negative then .gt else .lt)
  | x, y =>
    match x.fraction?, y.fraction? with
    | some (a, b), some (c, d) => some (compare (a * d) (c * b))
    | _, _ => none

/-- Equality of the values: both zeros are equal, and what is undefined equals nothing. -/
def same (x y : Double) : Bool := x.compare? y = some .eq

/-- The quotient of two numbers, rounded; `none` for a division by zero. -/
def div? (x y : Double) : Option Double :=
  match x, y with
  | _, .finite _ 0 _ => none
  | .nan, _ | _, .nan => some .nan
  | .infinite _, .infinite _ => some .nan
  | .infinite a, .finite b _ _ => some (.infinite (a != b))
  | .finite a _ _, .infinite b => some (zero (a != b))
  | .finite a _ _, .finite b _ _ =>
    match x.fraction?, y.fraction? with
    | some (n, d), some (n', d') =>
      some (ofFraction (a != b) (n.natAbs * d') (d * n'.natAbs))
    | _, _ => none

end Double

end BusinessModel
