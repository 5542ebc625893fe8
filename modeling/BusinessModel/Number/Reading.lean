import BusinessModel.Number.Double
import BusinessModel.Text.Blank
import BusinessModel.Text.Digit
import BusinessModel.Text.Quoted

/-!
Reading decimal texts as numbers.
-/

namespace BusinessModel

/-- The characters as a number in ASCII digits; `none` if there are others or none at all. -/
def naturalOf? (cs : List Char) : Option Nat :=
  if cs.isEmpty || !cs.all Char.isDigit then none
  else some (cs.foldl (fun n c => 10 * n + (c.toNat - 48)) 0)

/-- The sign at the front, and the rest. -/
def splitSign : List Char → Bool × List Char
  | '-' :: rest => (true, rest)
  | '+' :: rest => (false, rest)
  | cs => (false, cs)

/-- An integer in ASCII decimal digits with an optional sign. -/
def integerOf? (cs : List Char) : Option Int :=
  let (negative, rest) := splitSign cs
  (naturalOf? rest).map fun n => if negative then -n else n

/-- The number of digits beyond which an integer is refused. -/
def maxIntDigits : Nat := 4300

/-- The report on an integer with too many digits. -/
def tooManyDigits (count : Nat) : String :=
  "Exceeds the limit (4300 digits) for integer string conversion: value has " ++
    Text.natText count ++ " digits; use sys.set_int_max_str_digits() to increase the limit"

/-- The report on a text that writes no integer in a base. -/
def noInteger (base : Nat) (text : String) : String :=
  "invalid literal for int() with base " ++ Text.natText base ++ ": " ++ Text.quote text

/-- Digits of any script, with single underscores between them. -/
def isSpacedNumber (cs : List Char) : Bool :=
  cs.head?.any Text.isDecimal && cs.getLast?.any Text.isDecimal &&
    cs.all (fun c => c == '_' || Text.isDecimal c) &&
    !(cs.zip (cs.drop 1)).any fun (a, b) => a == '_' && b == '_'

/-- The integer that a text writes: digits of any script with single underscores between them,
perhaps a sign in front, perhaps blanks around. Otherwise the report on the text. -/
def integerOfText (text : String) : Except String Int :=
  let (negative, cs) := splitSign (Text.strip text).toList
  let digits := cs.filter (· != '_')
  if !isSpacedNumber cs then .error (noInteger 10 text)
  else if digits.length > maxIntDigits then .error (tooManyDigits digits.length)
  else
    let n : Int := Text.digitsValue digits
    .ok (if negative then -n else n)

/-- A number in decimal digits: a sign, digits with a point among them, an exponent after `e`; also
`inf` and `nan`. -/
def Double.ofText? (s : String) : Option Double :=
  let (negative, cs) := splitSign (s.toList.map Char.toLower)
  if cs = ['i', 'n', 'f'] ∨ cs = "infinity".toList then some (.infinite negative)
  else if cs = ['n', 'a', 'n'] then some .nan
  else
    let whole := cs.takeWhile Char.isDigit
    let cs := cs.drop whole.length
    let (decimals, cs) := match cs with
      | '.' :: rest =>
        let decimals := rest.takeWhile Char.isDigit
        (decimals, rest.drop decimals.length)
      | _ => ([], cs)
    let exponent? := match cs with
      | [] => some 0
      | 'e' :: rest => integerOf? rest
      | _ => none
    match naturalOf? (whole ++ decimals), exponent? with
    | some digits, some exponent => some (.ofDecimal negative digits (exponent - decimals.length))
    | _, _ => none

end BusinessModel
