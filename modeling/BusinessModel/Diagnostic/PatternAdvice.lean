import BusinessModel.Number.Reading
import BusinessModel.Text.Case

/-!
Advice on texts that do not match a pattern, from the form of the pattern: patterns of identifiers,
and patterns of numbers with a unit.
-/

namespace BusinessModel

/-- Why no advice can be given. -/
inductive AdviceFault where
  /-- What the advice is made from does not have its form. -/
  | unusable
  /-- The advice would be longer than a text can be. -/
  | tooLong
deriving DecidableEq, Repr, Inhabited

namespace PatternAdvice

/-- The pieces between bars, one at least. -/
def alternatives : List Char → List (List Char)
  | [] => [[]]
  | c :: rest =>
    match alternatives rest with
    | piece :: pieces => if c == '|' then [] :: piece :: pieces else (c :: piece) :: pieces
    | [] => [[c]]

/-- Nothing, or a line feed at the end of the text. -/
def isEnd (cs : List Char) : Bool := cs.isEmpty || cs == ['\n']

/-- A capital letter from A to Z. -/
def isUpper (c : Char) : Bool := 'A' ≤ c && c ≤ 'Z'

/-- A small letter from a to z. -/
def isLower (c : Char) : Bool := 'a' ≤ c && c ≤ 'z'

/-- The characters behind one that may stand at the front. -/
def skip (c : Char) : List Char → List Char
  | d :: rest => if d == c then rest else d :: rest
  | [] => []

/-- A pattern of identifiers: the letters that may stand in front, and how many digits follow at
least. -/
structure IdPattern where
  letters : List String
  digits : List Char
deriving DecidableEq, Repr

/-- A pattern of identifiers, if a text is one: two or three capital letters or a choice between
such, then digits with their least number. -/
def idPattern? (pattern : String) : Option IdPattern :=
  match pattern.toList with
  | '^' :: rest =>
    let rest := skip '(' rest
    let letters := rest.takeWhile fun c => isUpper c || c == '|'
    let parts := alternatives letters
    match skip ')' (rest.drop letters.length) with
    | '\\' :: 'd' :: '\x7b' :: rest =>
      let digits := rest.takeWhile Text.isDecimal
      let rest := (skip ',' (rest.drop digits.length)).dropWhile Text.isDecimal
      match rest with
      | '\x7d' :: '$' :: rest =>
        if isEnd rest && !digits.isEmpty && parts.all fun p => p.length == 2 || p.length == 3 then
          some ⟨parts.map String.ofList, digits⟩
        else none
      | _ => none
    | _ => none
  | _ => none

/-- The least number of digits. -/
def IdPattern.width (p : IdPattern) : Except AdviceFault Nat :=
  match integerOfText (String.ofList p.digits) with
  | .ok n => .ok n.toNat
  | .error _ => .error .unusable

/-- No text has more characters. -/
def maxWidth : Nat := Nat.pow 2 63 - 1

/-- Digits filled with zeros up to a width. -/
def filled (width : Nat) (digits : String) : Except AdviceFault String :=
  if width > maxWidth then .error .tooLong else .ok (Text.zeroFill width digits)

/-- The letters and the digits of a text that looks like an identifier, whatever the case of its two
or three letters. -/
def idLike? (s : String) : Option (String × String) :=
  let cs := s.toList
  let letters := cs.takeWhile fun c => isUpper c || isLower c
  let rest := cs.drop letters.length
  let digits := rest.takeWhile Text.isDecimal
  if (letters.length == 2 || letters.length == 3) && !digits.isEmpty
      && isEnd (rest.drop digits.length) then
    some (String.ofList letters, String.ofList digits)
  else none

/-- The first unit of a pattern that ends in a choice between units of small letters. -/
def firstUnit? (pattern : String) : Option String :=
  let cs := pattern.toList.reverse
  match skip '\n' cs with
  | '$' :: ')' :: rest =>
    let choice := rest.takeWhile fun c => isLower c || c == '|'
    let units := alternatives choice.reverse
    if (rest.drop choice.length).head? == some '(' && units.length ≥ 2
        && units.all fun u => !u.isEmpty then
      units.head?.map String.ofList
    else none
  | _ => none

/-- Whether a text is a number: digits, perhaps with a point and more digits. -/
def isNumber (s : String) : Bool :=
  let cs := s.toList
  let whole := cs.takeWhile Text.isDecimal
  let rest := cs.drop whole.length
  let rest := match rest with
    | '.' :: more =>
      let decimals := more.takeWhile Text.isDecimal
      if decimals.isEmpty then rest else more.drop decimals.length
    | _ => rest
  !whole.isEmpty && isEnd rest

/-- A number without its unit. -/
def missingUnit? (value pattern : String) : Option String :=
  (firstUnit? pattern).bind fun unit =>
    if isNumber value then some ("Missing unit: try \"" ++ value ++ unit ++ "\"") else none

/-- An identifier with too few digits or with small letters. -/
def idDigits? (value pattern : String) : Except AdviceFault (Option String) :=
  match idPattern? pattern, idLike? value with
  | some p, some (letters, digits) => do
    let width ← p.width
    let capitals := Text.upper letters
    if !p.letters.contains capitals then return none
    let fixed := capitals ++ (← filled width digits)
    if letters != capitals then
      return some ("ID prefixes are uppercase: use \"" ++ fixed ++ "\"")
    if digits.length < width then
      return some ("ID needs at least " ++ Text.natText width ++ " digits: use \"" ++ fixed ++ "\"")
    return none
  | _, _ => return none

/-- An identifier of another kind than the only one that is allowed. -/
def wrongLetters? (value pattern : String) : Option String :=
  match idPattern? pattern, idLike? value with
  | some ⟨[only], _⟩, some (letters, _) =>
    if Text.upper letters == only then none
    else some ("Expected an ID starting with \"" ++ only ++ "\", got \"" ++ letters ++ "\"")
  | _, _ => none

/-- A text with blanks around it. -/
def surroundingSpace? (value : String) : Option String :=
  let stripped := Text.strip value
  if stripped == value then none
  else some ("Remove the surrounding whitespace: \"" ++ stripped ++ "\"")

/-- The suggestion for a value that does not match a pattern. -/
def suggestion? (value pattern : String) : Except AdviceFault (Option String) := do
  match missingUnit? value pattern with
  | some s => return some s
  | none =>
    match ← idDigits? value pattern with
    | some s => return some s
    | none => return (wrongLetters? value pattern).orElse fun _ => surroundingSpace? value

/-- What a pattern asks for in words, and an example if it is a pattern of identifiers. -/
def hint (pattern : String) : Except AdviceFault (String × Option String) :=
  match idPattern? pattern with
  | none => .ok ("Must match pattern: " ++ pattern, none)
  | some p => do
    let width ← p.width
    let first := p.letters.headD "" ++ (← filled width "1")
    return ("IDs are " ++ " or ".intercalate p.letters ++ " followed by " ++ Text.natText width ++
      "+ digits (e.g., " ++ first ++ ").", some first)

end PatternAdvice

end BusinessModel
