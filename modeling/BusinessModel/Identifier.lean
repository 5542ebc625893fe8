import BusinessModel.Number.Reading
import BusinessModel.Pattern.Parse

/-!
Identifiers of elements: letters that tell the kind of the element, and digits.

A scheme lists the letters that are in use and the least number of digits. It recognises valid
identifiers by a pattern; apart from that, every text of capital letters and digits can be split
into the two.
-/

namespace BusinessModel

/-- The letters in use with the element types that they stand for, the least number of digits, and
the number that new identifiers start from. -/
structure IdScheme where
  kinds : List (String × String) := []
  digitLength : Int := 5
  initOffset : Int := 1
deriving DecidableEq, Repr, Inhabited

namespace IdScheme

/-- Longer texts first, equally long ones in the order of their characters. -/
def longerFirst (a b : String) : Bool :=
  a.length > b.length || (a.length == b.length && a ≤ b)

/-- The letters in use, in the order in which they are tried. -/
def alternatives (s : IdScheme) : List String := (s.kinds.map (·.1)).mergeSort longerFirst

/-- The text of the pattern of valid identifiers. -/
def patternText (s : IdScheme) : String :=
  "^(" ++ "|".intercalate s.alternatives ++ ")\\d\x7b" ++ Text.intText s.digitLength ++ ",\x7d$"

/-- A character that stands for itself in the text of a pattern. -/
def isPlainChar (c : Char) : Bool := !".^$*+?\x7b[\\|()".toList.contains c

/-- Whether nothing in the letters has a meaning of its own in a pattern. -/
def isPlain (s : IdScheme) : Bool :=
  0 ≤ s.digitLength && s.kinds.all fun p => p.1.toList.all isPlainChar

/-- The pattern of a text that stands for itself. -/
def literal : List Char → Pattern
  | [] => .empty
  | c :: rest => .seq (.char (.exactly c)) (literal rest)

/-- The pattern of several texts that stand for themselves. -/
def oneOf : List String → Pattern
  | [] => .empty
  | [p] => literal p.toList
  | p :: rest => .alt (literal p.toList) (oneOf rest)

/-- The pattern of valid identifiers, of letters that stand for themselves: one of the letters, the
digits, and the end of the text. -/
def plainPattern (s : IdScheme) : Pattern :=
  .seq (.anchor .textStart) (.seq (.group 1 (oneOf s.alternatives))
    (.seq (.repeated .greedy s.digitLength.toNat none (.char (.digit false))) (.anchor .textEnd)))

/-- The pattern of valid identifiers; there is none if the letters do not make one. -/
def pattern? (s : IdScheme) : Option Pattern :=
  if s.isPlain then some s.plainPattern else Pattern.parse? s.patternText

/-- Whether a text is a valid identifier. -/
def isValid (s : IdScheme) (text : String) : Bool :=
  s.pattern?.any (·.matchesStart text)

/-- A capital letter from A to Z. -/
def isCapital (c : Char) : Bool := 'A' ≤ c && c ≤ 'Z'

/-- The letters and the digits of a text that consists of these. A line feed may follow. -/
def split? (text : String) : Option (String × String) :=
  let cs := text.toList
  let letters := cs.takeWhile isCapital
  let rest := cs.dropWhile isCapital
  let digits := rest.takeWhile Text.isDecimal
  let rest := rest.dropWhile Text.isDecimal
  if letters.isEmpty || digits.isEmpty || !(rest.isEmpty || rest == ['\n']) then none
  else some (String.ofList letters, String.ofList digits)

/-- The letters of an identifier, if they are in use. -/
def letters? (s : IdScheme) (text : String) : Option String :=
  (split? text).bind fun (letters, _) =>
    if (s.kinds.lookup letters).isSome then some letters else none

/-- The element type that the letters of an identifier stand for. -/
def elementType? (s : IdScheme) (text : String) : Option String :=
  (s.letters? text).bind fun letters => s.kinds.lookup letters

/-- The number of an identifier; a report if it has too many digits. -/
def number? (text : String) : Except String (Option Int) :=
  match split? text with
  | none => .ok none
  | some (_, digits) => some <$> integerOfText digits

/-- The identifier of a number: the digits are filled with zeros. -/
def format (s : IdScheme) (letters : String) (number : Int) : String :=
  letters ++ Text.zeroFill s.digitLength.toNat (Text.intText number)

/-- The first of `fuel` identifiers that is not taken, or the one behind them. -/
def nextFrom (s : IdScheme) (letters : String) (taken : List String) : Nat → Int → String
  | 0, number => s.format letters number
  | fuel + 1, number =>
    let candidate := s.format letters number
    if taken.contains candidate then nextFrom s letters taken fuel (number + 1) else candidate

/-- The first identifier that is not taken, from a number on. -/
def next (s : IdScheme) (letters : String) (taken : List String) (start : Option Int) : String :=
  s.nextFrom letters taken taken.length (start.getD s.initOffset)

end IdScheme

end BusinessModel
