import BusinessModel.Number.Reading
import BusinessModel.Pattern.Parse

/-!
The formats that a schema may ask of a text: dates, mail and network addresses, patterns and
universally unique identifiers. A format of any other name is met by every text.
-/

namespace BusinessModel.Format

/-- The pieces between occurrences of a character, one at least. -/
def pieces (separator : Char) : List Char → List (List Char)
  | [] => [[]]
  | c :: rest =>
    match pieces separator rest with
    | piece :: more => if c == separator then [] :: piece :: more else (c :: piece) :: more
    | [] => [[c]]

/-- A year that has a day more. -/
def isLeapYear (year : Nat) : Bool := year % 4 == 0 && (year % 100 != 0 || year % 400 == 0)

/-- The number of days of a month. -/
def daysIn (year month : Nat) : Nat :=
  if month == 2 then (if isLeapYear year then 29 else 28)
  else if [4, 6, 9, 11].contains month then 30 else 31

/-- A date of four digits, two and two, with hyphens between. -/
def isDate (cs : List Char) : Bool :=
  match pieces '-' cs with
  | [y, m, d] =>
    if y.length == 4 && m.length == 2 && d.length == 2 then
      match naturalOf? y, naturalOf? m, naturalOf? d with
      | some y, some m, some d => 1 ≤ y && 1 ≤ m && m ≤ 12 && 1 ≤ d && d ≤ daysIn y m
      | _, _, _ => false
    else false
  | _ => false

/-- A part of a network address of four parts: up to three digits, no zero in front of others. -/
def isOctet (cs : List Char) : Bool :=
  match naturalOf? cs with
  | some n => cs.length ≤ 3 && n ≤ 255 && (cs.length == 1 || cs.head? != some '0')
  | none => false

/-- A network address of four parts. -/
def isIpv4 (cs : List Char) : Bool :=
  let parts := pieces '.' cs
  parts.length == 4 && parts.all isOctet

/-- A part of a network address of eight parts: one to four hexadecimal digits. -/
def isHextet (cs : List Char) : Bool :=
  !cs.isEmpty && cs.length ≤ 4 && cs.all fun c => (Text.hexValue? c).isSome

/-- The parts of an address of eight; the last may be written as an address of four, which makes
two. Two colons leave out one part or more, once. -/
def isIpv6 (cs : List Char) : Bool :=
  let parts := pieces ':' cs
  let last := (parts.getLast?).getD []
  let short := last.contains '.'
  let parts := if short then parts.dropLast ++ [['0'], ['0']] else parts
  let inner := (parts.drop 1).dropLast
  let gaps := inner.filter (·.isEmpty)
  let first := (parts.head?).getD []
  let final := (parts.getLast?).getD []
  if short && !isIpv4 last then false
  else if parts.length < 3 || parts.length > 9 || gaps.length > 1 then false
  else if !gaps.isEmpty then
    let atStart := first.isEmpty
    let atEnd := final.isEmpty
    let gapFirst := (inner.head?.any (·.isEmpty))
    let gapLast := (inner.getLast?.any (·.isEmpty))
    let written := parts.filter (!·.isEmpty)
    (!atStart || gapFirst) && (!atEnd || gapLast) && written.length < 8 && written.all isHextet
  else parts.length == 8 && parts.all isHextet

/-- The characters without the occurrences of a word. -/
def removeWord (word : List Char) : Nat → List Char → List Char
  | 0, cs => cs
  | fuel + 1, cs =>
    match cs with
    | [] => []
    | c :: rest =>
      if word.isPrefixOf cs then removeWord word fuel (cs.drop word.length)
      else c :: removeWord word fuel rest

/-- A number in hexadecimal digits, as generously written as numbers may be: with a sign, blanks
around, `0x` in front, and single underscores between digits. -/
def isHexNumber (cs : List Char) : Bool :=
  let cs := (Text.strip (String.ofList cs)).toList
  let cs := match cs with
    | '-' :: rest | '+' :: rest => rest
    | _ => cs
  let cs := match cs with
    | '0' :: 'x' :: rest | '0' :: 'X' :: rest =>
      if rest.head? == some '_' then rest.drop 1 else rest
    | _ => cs
  let groups := pieces '_' cs
  groups.all fun g => !g.isEmpty && g.all fun c => (Text.hexValue? c).isSome || Text.isDecimal c

/-- A universally unique identifier, with hyphens at their places. -/
def isUuid (cs : List Char) : Bool :=
  let bare := removeWord "uuid:".toList cs.length (removeWord "urn:".toList cs.length cs)
  let isBrace (c : Char) : Bool := c == '\x7b' || c == '\x7d'
  let bare := ((bare.dropWhile isBrace).reverse.dropWhile isBrace).reverse
  let bare := bare.filter (· != '-')
  bare.length == 32 && isHexNumber bare && [8, 13, 18, 23].all fun i => cs[i]? == some '-'

/-- Whether a text meets the format of a name. -/
def accepts (name text : String) : Bool :=
  let cs := text.toList
  match name with
  | "date" => isDate cs
  | "email" | "idn-email" => cs.contains '@'
  | "ipv4" => isIpv4 cs
  | "ipv6" => isIpv6 cs
  | "regex" => (Pattern.parse? text).isSome
  | "uuid" => isUuid cs
  | _ => true

end BusinessModel.Format
