import BusinessModel.Number.Reading
import BusinessModel.Value
import BusinessModel.Yaml.Tag

/-!
The values of scalars: from the text and the type of a node to what it stands for.
-/

namespace BusinessModel.Yaml

/-- A scalar that has been read. Its label is the text it has as a key and in reports, which for
times differs from its value. As a key, a tagged scalar equals no other, and a date or time equals
no string. -/
structure Datum where
  value : Scalar
  label : String
  tagged : Bool := false
  temporal : Bool := false
deriving DecidableEq, Repr, Inhabited

/-- A value that is its own label. -/
def Datum.ofScalar (s : Scalar) : Datum := { value := s, label := s.text }

/-- The number that the digits of a base write. -/
def basedNumber (base : Nat) (cs : List Char) : Nat :=
  cs.foldl (fun n c => base * n + (Text.hexValue? c).getD 0) 0

/-- A number in a base that is a power of two. -/
def radixNumber (base : Nat) (cs : List Char) : Except Error Nat :=
  if !cs.isEmpty && cs.all fun c => (Text.hexValue? c).any (· < base) then .ok (basedNumber base cs)
  else .error (.scalarValue
    (noInteger base (String.ofList cs)))

/-- A number in decimal digits. -/
def decimalNumber (cs : List Char) : Except Error Nat :=
  match naturalOf? cs with
  | some n =>
    if cs.length > maxIntDigits then .error (.scalarValue (tooManyDigits cs.length)) else .ok n
  | none => .error (.scalarValue
      (noInteger 10 (String.ofList cs)))

/-- The pieces of a text between the separators. -/
def splitAt (sep : Char) : List Char → List (List Char)
  | [] => [[]]
  | c :: rest =>
    if c == sep then [] :: splitAt sep rest
    else match splitAt sep rest with
      | piece :: pieces => (c :: piece) :: pieces
      | [] => [[c]]

/-- A number in base sixty, its parts separated by colons. -/
def sexagesimalNumber (cs : List Char) : Nat :=
  (splitAt ':' cs).foldl (fun n part => 60 * n + basedNumber 10 part) 0

/-- The integer that a text writes. -/
def intOfText (edition : Edition) (text : String) : Except Error Int := do
  let cs := text.toList.filter (· != '_')
  if cs.isEmpty then throw .scalarText
  let (negative, ds) := splitSign cs
  let n ← match ds with
    | '0' :: 'b' :: rest => radixNumber 2 rest
    | '0' :: 'x' :: rest => radixNumber 16 rest
    | '0' :: 'o' :: rest => radixNumber 8 rest
    | [] => throw .scalarText
    | '0' :: _ => if edition == .v11 then radixNumber 8 ds else decimalNumber ds
    | _ =>
      if edition == .v11 && ds.contains ':' then pure (sexagesimalNumber ds) else decimalNumber ds
  return if negative then -n else n

/-- The floating point number that a text writes. -/
def floatOfText (edition : Edition) (text : String) : Except Error Double := do
  let cs := (text.toList.filter (· != '_')).map Char.toLower
  if cs.isEmpty then throw .scalarText
  let (negative, ds) := splitSign cs
  if ds == ".inf".toList then return .infinite negative
  if ds == ".nan".toList then return .nan
  if edition == .v11 && ds.contains ':' then
    let (parts, decimals) := (ds.takeWhile (· != '.'), (ds.dropWhile (· != '.')).tail)
    let digits := sexagesimalNumber parts * Nat.pow 10 decimals.length + basedNumber 10 decimals
    return .ofDecimal negative digits (-decimals.length)
  match (Double.ofText? (String.ofList ds)) with
  | some (.finite _ m e) => return .finite negative m e
  | some (.infinite _) => return .infinite negative
  | some .nan => return .nan
  | none => throw (.scalarValue
      ("could not convert string to float: " ++ Text.quote (String.ofList ds)))

/-- The truth value of a word. -/
def boolOfText (text : String) : Except Error Bool :=
  let word := String.ofList (text.toList.map Char.toLower)
  if ["true", "yes", "y", "on"].contains word then .ok true
  else if ["false", "no", "n", "off"].contains word then .ok false
  else .error .truthValue

/-! ### Timestamps -/

/-- Whether a year has a 29th of February. -/
def isLeapYear (year : Nat) : Bool := year % 4 == 0 && (year % 100 != 0 || year % 400 == 0)

/-- The number of days of a month. -/
def daysInMonth (year month : Nat) : Nat :=
  if month == 2 then if isLeapYear year then 29 else 28
  else if [4, 6, 9, 11].contains month then 30 else 31

/-- A day in the calendar. -/
structure Date where
  year : Nat
  month : Nat
  day : Nat
deriving DecidableEq, Repr, Inhabited

/-- A date that exists, or why it does not. -/
def Date.make (year month day : Nat) : Except Error Date :=
  if year == 0 || 9999 < year then
    .error (.scalarValue ("year " ++ Text.natText year ++ " is out of range"))
  else if month == 0 || 12 < month then .error (.scalarValue "month must be in 1..12")
  else if day == 0 || daysInMonth year month < day then
    .error (.scalarValue "day is out of range for month")
  else .ok ⟨year, month, day⟩

/-- The day after a day. -/
def Date.next (d : Date) : Date :=
  if d.day < daysInMonth d.year d.month then { d with day := d.day + 1 }
  else if d.month < 12 then ⟨d.year, d.month + 1, 1⟩
  else ⟨d.year + 1, 1, 1⟩

/-- A number with at least `width` digits. -/
def padded (width n : Nat) : String := Text.zeroFill width (Text.natText n)

/-- A date as year, month and day. -/
def Date.text (d : Date) : String :=
  padded 4 d.year ++ "-" ++ padded 2 d.month ++ "-" ++ padded 2 d.day

/-- The microseconds of a decimal fraction, rounded at the seventh digit. -/
def microseconds (fraction : List Char) : Nat :=
  let six := fraction.take 6
  let n := basedNumber 10 (six ++ List.replicate (6 - six.length) '0')
  match fraction.drop 6 with
  | d :: _ => if d.toNat > 52 then n + 1 else n
  | [] => n

/-- The length of a time offset, as whole days and seconds, the days negative if need be. -/
def offsetText (negative : Bool) (minutes : Nat) : String :=
  let seconds : Int := (if negative then -1 else 1) * (60 * minutes)
  let days := seconds.fdiv 86400
  let rest := seconds.fmod 86400
  let parts := (if days == 0 then [] else ["days=" ++ Text.intText days]) ++
    (if rest == 0 then [] else ["seconds=" ++ Text.intText rest])
  "datetime.timedelta(" ++ (if parts.isEmpty then "0" else ", ".intercalate parts) ++ ")"

/-- The zone of a time as hours and minutes from the meridian. -/
def zoneText (zone : Option (Bool × List Char × List Char)) : Except Error String :=
  match zone with
  | none => .ok "+00:00"
  | some (negative, hours, minutes) =>
    let total := 60 * basedNumber 10 hours + basedNumber 10 minutes
    if total ≥ 1440 then
      .error (.scalarValue
        ("offset must be a timedelta strictly between -timedelta(hours=24) and " ++
          "timedelta(hours=24), not " ++ offsetText negative total ++ "."))
    else
      .ok ((if negative && total != 0 then "-" else "+") ++ padded 2 (total / 60) ++ ":" ++
        padded 2 (total % 60))

/-- The value of a timestamp: the text of the date, or that of the date and time with the letter T
between them. Its label has a space there unless the letter was written. -/
def timestampDatum (p : TimestampParts) : Except Error Datum := do
  let date ← Date.make (basedNumber 10 p.year) (basedNumber 10 p.month) (basedNumber 10 p.day)
  match p.time with
  | none => return { value := .str date.text, label := date.text, temporal := true }
  | some (hour, minute, second) =>
    let (hour, minute, second) :=
      (basedNumber 10 hour, basedNumber 10 minute, basedNumber 10 second)
    if hour > 23 then throw (.scalarValue "hour must be in 0..23")
    if minute > 59 then throw (.scalarValue "minute must be in 0..59")
    if second > 59 then throw (.scalarValue "second must be in 0..59")
    let zone ← match p.zone with
      | none => pure ""
      | some zone => zoneText zone
    let micro := microseconds p.fraction
    let total := 3600 * hour + 60 * minute + second + micro / 1000000
    let date := if total ≥ 86400 then date.next else date
    let total := total % 86400
    let micro := micro % 1000000
    let time := padded 2 (total / 3600) ++ ":" ++ padded 2 (total / 60 % 60) ++ ":" ++
      padded 2 (total % 60) ++ (if micro == 0 then "" else "." ++ padded 6 micro) ++ zone
    return { value := .str (date.text ++ "T" ++ time)
             label := date.text ++ (if p.letter then "T" else " ") ++ time
             temporal := true }

/-! ### Binary data -/

/-- The value of a character of the base 64 alphabet. -/
def base64Value? (c : Char) : Option Nat :=
  if 'A' ≤ c ∧ c ≤ 'Z' then some (c.toNat - 65)
  else if 'a' ≤ c ∧ c ≤ 'z' then some (c.toNat - 71)
  else if '0' ≤ c ∧ c ≤ '9' then some (c.toNat + 4)
  else if c == '+' then some 62
  else if c == '/' then some 63
  else none

/-- Bytes from groups of six bits; `bits` holds those of `pending` characters of the current group
of four, `padding` counts the padding read in it, and `count` the characters of the alphabet. -/
def base64Bytes (bits pending padding count : Nat) : List Char → Except String (List Nat)
  | [] =>
    if pending == 0 then .ok []
    else if pending == 1 then
      .error ("Invalid base64-encoded string: number of data characters (" ++ Text.natText count ++
        ") cannot be 1 more than a multiple of 4")
    else .error "Incorrect padding"
  | c :: rest =>
    if c == '=' then
      if 2 ≤ pending && 4 ≤ pending + padding + 1 then .ok []
      else base64Bytes bits pending (if 2 ≤ pending then padding + 1 else padding) count rest
    else
      match base64Value? c with
      | none => base64Bytes bits pending padding count rest
      | some v =>
        let bits := 64 * bits + v
        match pending with
        | 0 => base64Bytes v 1 0 (count + 1) rest
        | 1 => (base64Bytes (v % 16) 2 0 (count + 1) rest).map (bits / 16 % 256 :: ·)
        | 2 => (base64Bytes (v % 4) 3 0 (count + 1) rest).map (bits / 4 % 256 :: ·)
        | _ => (base64Bytes 0 0 0 (count + 1) rest).map (bits % 256 :: ·)

/-- Bytes as a printed text. -/
def bytesText (bytes : List Nat) : String :=
  let mark := Text.quoteMark (bytes.map Char.ofNat)
  let escape (n : Nat) : List Char :=
    if n < 128 then Text.escapeChar mark (Char.ofNat n) else '\\' :: 'x' :: Text.hexDigits 2 n
  String.ofList ('b' :: mark :: bytes.flatMap escape ++ [mark])

/-- The label and value of binary data. -/
def binaryDatum (place : Mark) (text : String) : Except Error Datum :=
  match base64Bytes 0 0 0 0 text.toList with
  | .ok bytes => .ok (.ofScalar (.str (bytesText bytes)))
  | .error reason => .error (.at none (.base64 reason) place)

/-! ### All scalars -/

/-- The value of a scalar of a type. An anchored truth value has the label of its number. -/
def Datum.ofText (edition : Edition) (tag : Tag) (anchored : Bool) (place : Mark) (text : String) :
    Except Error Datum := do
  match tag with
  | .null => return .ofScalar .null
  | .bool =>
    let b ← boolOfText text
    let label := if anchored then Text.natText b.toNat else (Scalar.bool b).text
    return { value := .bool b, label }
  | .int => return .ofScalar (.int (← intOfText edition text))
  | .float => return .ofScalar (.float (← floatOfText edition text))
  | .binary => binaryDatum place text
  | .timestamp =>
    match timestampParts? text.toList with
    | some p => timestampDatum p
    | none => throw (.at none (.timestamp text) place)
  | .sequence => throw (.at none (.sequenceNode "scalar") place)
  | .mapping => throw (.at none (.mappingNode "scalar") place)
  | .orderedMap => throw (.at (some (.orderedMap, place)) (.sequenceOf "scalar") place)
  | .pairs => throw (.at (some (.pairs, place)) (.sequenceOf "scalar") place)
  | .str => return .ofScalar (.str text)
  | .merge | .other _ => return { value := .str text, label := text, tagged := true }

end BusinessModel.Yaml
