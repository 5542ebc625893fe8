import BusinessModel.Text.Printable

/-!
Texts in quotation marks, and numbers as padded or grouped digits.

A text is quoted with apostrophes, or with double quotes if it holds apostrophes and no double
quote. The backslash, the quotation mark and characters that do not print are escaped.
-/

namespace BusinessModel.Text

/-- The hexadecimal digits of a number, small letters, at least `width` of them. -/
def hexDigits (width n : Nat) : List Char :=
  let ds := Nat.toDigits 16 n
  List.replicate (width - ds.length) '0' ++ ds

/-- One character inside the quotation marks `mark`. -/
def escapeChar (mark c : Char) : List Char :=
  if c == mark || c == '\\' then ['\\', c]
  else if c == '\n' then ['\\', 'n']
  else if c == '\r' then ['\\', 'r']
  else if c == '\t' then ['\\', 't']
  else if isPrintable c then [c]
  else
    let n := c.toNat
    if n < 0x100 then '\\' :: 'x' :: hexDigits 2 n
    else if n < 0x10000 then '\\' :: 'u' :: hexDigits 4 n
    else '\\' :: 'U' :: hexDigits 8 n

/-- The quotation mark for a text. -/
def quoteMark (cs : List Char) : Char :=
  if cs.contains '\'' && !cs.contains '"' then '"' else '\''

/-- The text in quotation marks. -/
def quote (s : String) : String :=
  let cs := s.toList
  let mark := quoteMark cs
  String.ofList (mark :: cs.flatMap (escapeChar mark) ++ [mark])

/-- One character in quotation marks. -/
def quoteChar (c : Char) : String := quote (String.ofList [c])

/-- The decimal digits of a number. -/
def natText (n : Nat) : String := String.ofList (Nat.toDigits 10 n)

/-- An integer in decimal digits, with a minus sign if it is negative. -/
def intText (n : Int) : String := if n < 0 then "-" ++ natText n.natAbs else natText n.natAbs

/-- The text of a number filled with zeros up to `width` characters; a sign stays in front. -/
def zeroFill (width : Nat) (s : String) : String :=
  let cs := s.toList
  let zeros := List.replicate (width - cs.length) '0'
  match cs with
  | '-' :: rest => String.ofList ('-' :: zeros ++ rest)
  | '+' :: rest => String.ofList ('+' :: zeros ++ rest)
  | _ => String.ofList (zeros ++ cs)

/-- Digits, least significant first, with a comma after every third. -/
def groupDigits : List Char → List Char
  | a :: b :: c :: d :: rest => a :: b :: c :: ',' :: groupDigits (d :: rest)
  | cs => cs

/-- An integer with its digits in groups of three. -/
def groupedText (n : Int) : String :=
  let digits := String.ofList (groupDigits (Nat.toDigits 10 n.natAbs).reverse).reverse
  if n < 0 then "-" ++ digits else digits

end BusinessModel.Text
