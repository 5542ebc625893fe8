import BusinessModel.Number.Double
import BusinessModel.Text.Quoted

/-!
The shortest decimal text of a floating point number: the fewest digits that read back as the
number, and of those the nearest to it.
-/

namespace BusinessModel.Double

/-- Decimal digits `digits`, the first of which has the weight `10 ^ exponent`. -/
structure Decimal where
  digits : Nat
  exponent : Int
deriving Repr, Inhabited

/-- The fraction `num / (den * 10 ^ e)`. -/
def decimallyScaled (num den : Nat) (e : Int) : Nat × Nat :=
  if 0 ≤ e then (num, den * Nat.pow 10 e.toNat) else (num * Nat.pow 10 (-e).toNat, den)

/-- The exponent `e` with `10 ^ e ≤ num / den < 10 ^ (e + 1)`. -/
def decimalExponent (num den : Nat) : Int :=
  let guess := Int.fdiv (((num.log2 : Int) - den.log2 - 1) * 30103) 100000
  let reaches (e : Int) : Bool :=
    let (n, d) := decimallyScaled num den e
    d ≤ n
  if reaches (guess + 1) then guess + 1
  else if reaches guess then guess
  else guess - 1

/-- Four times the mantissas that bound what rounds to `m * 2 ^ q`: the middle of the way to each
neighbour. The lower neighbour of a power of two is nearer. -/
def roundingBounds (m : Nat) (q : Int) : Nat × Nat :=
  let low := if m = Nat.pow 2 52 ∧ q > minExponent then 4 * m - 1 else 4 * m - 2
  (low, 4 * m + 2)

/-- The grid point with `count` digits that reads back as `m * 2 ^ q`, if there is one; of two the
nearer. `top` is the decimal exponent of the number. -/
def gridPoint? (m : Nat) (q : Int) (top : Int) (count : Nat) : Option Nat :=
  -- A quarter of the binary unit, measured in units of the last digit, is `num / den`.
  let (num, den) := scaled 1 4 (-q)
  let (num, den) := decimallyScaled num den (top - ((count : Int) - 1))
  let (low, high) := roundingBounds m q
  let within (d : Nat) : Bool :=
    let p := d * den
    if m % 2 = 0 then low * num ≤ p && p ≤ high * num else low * num < p && p < high * num
  let value := 4 * m * num
  let below := value / den
  match within below, within (below + 1) with
  | true, true =>
    let down := value - below * den
    let up := (below + 1) * den - value
    if down < up then some below
    else if up < down then some (below + 1)
    else if below % 2 = 0 then some below else some (below + 1)
  | true, false => some below
  | false, true => some (below + 1)
  | false, false => none

/-- The shortest decimal that reads back as the finite number `m * 2 ^ q`. -/
def shortest (m : Nat) (q : Int) : Decimal :=
  let (num, den) := if 0 ≤ q then (m * Nat.pow 2 q.toNat, 1) else (m, Nat.pow 2 (-q).toNat)
  let top := decimalExponent num den
  match (List.range 17).findSome? fun k => (gridPoint? m q top (k + 1)).map (k + 1, ·) with
  | some (count, d) =>
    let (d, top) := if d = Nat.pow 10 count then (1, top + 1) else (d, top)
    ⟨d, top⟩
  | none => ⟨0, 0⟩

/-- Digits without the zeros at the end. -/
def trimZeros (cs : List Char) : List Char := (cs.reverse.dropWhile (· == '0')).reverse

/-- The exponents that are written with a point among the digits; others have an exponent mark. -/
def positional (e : Int) : Bool := -4 ≤ e && e < 16

/-- The text of a positive decimal: `1.5`, `100.0`, `1e+16`, `2.5e-07`. -/
def Decimal.text (d : Decimal) : String :=
  let cs := trimZeros (Nat.toDigits 10 d.digits)
  if positional d.exponent then
    if d.exponent < 0 then
      "0." ++ String.ofList (List.replicate (-d.exponent - 1).toNat '0' ++ cs)
    else
      let whole := d.exponent.toNat + 1
      let front := cs.take whole ++ List.replicate (whole - cs.length) '0'
      let back := cs.drop whole
      String.ofList front ++ "." ++ (if back.isEmpty then "0" else String.ofList back)
  else
    let mark := if d.exponent < 0 then "e-" else "e+"
    let exponent := Text.natText d.exponent.natAbs
    let exponent := if exponent.length < 2 then "0" ++ exponent else exponent
    match cs with
    | [] => "0"
    | [c] => String.ofList [c] ++ mark ++ exponent
    | c :: rest => String.ofList (c :: '.' :: rest) ++ mark ++ exponent

/-- The text of a number: `-0.0`, `inf`, `nan`, or the shortest decimal that reads back. -/
def text : Double → String
  | .nan => "nan"
  | .infinite negative => if negative then "-inf" else "inf"
  | .finite negative m q =>
    (if negative then "-" else "") ++ if m = 0 then "0.0" else (shortest m q).text

end BusinessModel.Double
