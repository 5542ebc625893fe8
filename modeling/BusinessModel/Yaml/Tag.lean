import BusinessModel.Yaml.Event

/-!
The types of nodes: those that a tag names, and those that the form of a plain scalar implies.
-/

namespace BusinessModel.Yaml

/-- The type of a node. -/
inductive Tag where
  | null
  | bool
  | int
  | float
  | binary
  | timestamp
  | merge
  | str
  | sequence
  | mapping
  | orderedMap
  | pairs
  | other (name : String)
deriving DecidableEq, Repr, Inhabited

/-- The edition of the language that a document is written in. -/
inductive Edition where
  | v11
  | v12
  | unknown
deriving DecidableEq, Repr, Inhabited

/-- The edition of a declared version; documents are of version 1.2 unless they say otherwise. -/
def Edition.ofVersion : Option (Nat × Nat) → Edition
  | none => v12
  | some (1, 2) => v12
  | some (1, 1) => v11
  | some _ => unknown

/-- The namespace of the types that every document knows. -/
def coreNamespace : String := "tag:yaml.org,2002:"

/-- The type that a tag names. -/
def Tag.ofName (name : String) : Tag :=
  let known : List (String × Tag) :=
    [("null", .null), ("bool", .bool), ("int", .int), ("float", .float), ("binary", .binary),
     ("timestamp", .timestamp), ("merge", .merge), ("str", .str), ("seq", .sequence),
     ("map", .mapping), ("omap", .orderedMap), ("pairs", .pairs)]
  match known.find? fun e => coreNamespace ++ e.1 == name with
  | some (_, tag) => tag
  | none => .other name

/-! ### Forms of plain scalars -/

/-- A digit of a number, or an underscore between two. -/
def isNumeral (p : Char → Bool) (c : Char) : Bool := p c || c == '_'

/-- Not empty, and all characters have the property. -/
def allOf (p : Char → Bool) (cs : List Char) : Bool := !cs.isEmpty && cs.all p

/-- The characters without a sign in front. -/
def dropSign : List Char → List Char
  | '+' :: rest => rest
  | '-' :: rest => rest
  | cs => cs

/-- An exponent mark and digits behind it, with a sign or, if `signed` does not hold, without. -/
def isExponent (signed : Bool) : List Char → Bool
  | e :: rest =>
    (e == 'e' || e == 'E') &&
      match rest with
      | '+' :: ds => allOf Char.isDigit ds
      | '-' :: ds => allOf Char.isDigit ds
      | ds => !signed && allOf Char.isDigit ds
  | [] => false

/-- A digit between zero and seven. -/
def isOctalDigit (c : Char) : Bool := '0' ≤ c && c ≤ '7'

/-- A hexadecimal digit. -/
def isHexDigit (c : Char) : Bool := (Text.hexValue? c).isSome

/-- Parts of a number in base sixty: a colon and one or two digits, the first below six. -/
def isSexagesimalTail : List Char → Bool
  | [] => true
  | ':' :: a :: b :: rest =>
    if b.isDigit then '0' ≤ a && a ≤ '5' && isSexagesimalTail rest
    else a.isDigit && isSexagesimalTail (b :: rest)
  | [':', a] => a.isDigit
  | _ => false

/-- A number in base sixty. -/
def isSexagesimal (cs : List Char) : Bool :=
  let tail := cs.dropWhile (isNumeral Char.isDigit)
  (cs.headD ' ').isDigit && !tail.isEmpty && isSexagesimalTail tail

/-- The form of an integer. -/
def isIntForm (edition : Edition) (cs : List Char) : Bool :=
  let ds := dropSign cs
  let based :=
    match ds with
    | '0' :: 'b' :: rest => allOf (isNumeral fun c => c == '0' || c == '1') rest
    | '0' :: 'x' :: rest => allOf (isNumeral isHexDigit) rest
    | '0' :: 'o' :: rest => edition == .v12 && allOf (isNumeral isOctalDigit) rest
    | _ => false
  based ||
    match edition with
    | .v11 =>
      allOf (isNumeral isOctalDigit) ds ||
        ((ds.headD ' ') != '0' && (ds.headD ' ').isDigit &&
          (ds.all (isNumeral Char.isDigit) || isSexagesimal ds))
    | _ => allOf (isNumeral Char.isDigit) ds

/-- The form of a floating point number. -/
def isFloatForm (edition : Edition) (cs : List Char) : Bool :=
  let ds := dropSign cs
  let special :=
    [".inf", ".Inf", ".INF"].contains (String.ofList ds) ||
      [".nan", ".NaN", ".NAN"].contains (String.ofList cs)
  let whole := ds.takeWhile (isNumeral Char.isDigit)
  let rest := ds.drop whole.length
  let startsWithDigit := (ds.headD ' ').isDigit
  special ||
    match rest with
    | '.' :: decimals =>
      let tail := decimals.dropWhile (isNumeral Char.isDigit)
      let someDecimals := tail.length < decimals.length
      if startsWithDigit then tail.isEmpty || isExponent false tail
      else whole.isEmpty && (edition != .v11 || ds == cs) && someDecimals &&
        (tail.isEmpty || isExponent true tail)
    | _ =>
      (startsWithDigit && isExponent false rest) ||
        (edition == .v11 && startsWithDigit &&
          (let base := rest.takeWhile (· != '.')
           let decimals := rest.drop base.length
           !base.isEmpty && isSexagesimalTail base && !decimals.isEmpty &&
             decimals.tail.all (isNumeral Char.isDigit)))

/-- The words for truth values. -/
def boolWords (edition : Edition) : List String :=
  let always := ["true", "True", "TRUE", "false", "False", "FALSE"]
  match edition with
  | .v11 => always ++
      ["y", "Y", "yes", "Yes", "YES", "n", "N", "no", "No", "NO",
       "on", "On", "ON", "off", "Off", "OFF"]
  | _ => always

/-- The parts of a timestamp: the date, and the time with an optional fraction and zone. -/
structure TimestampParts where
  year : List Char
  month : List Char
  day : List Char
  time : Option (List Char × List Char × List Char) := none
  fraction : List Char := []
  /-- Whether the letter T separates the date from the time. -/
  letter : Bool := false
  /-- The sign of the zone, its hours and its minutes; `some none` stands for the letter Z. -/
  zone : Option (Option (Bool × List Char × List Char)) := none
deriving Repr, Inhabited

/-- One digit, or two if there are two. -/
def oneOrTwoDigits (cs : List Char) : Option (List Char × List Char) :=
  match cs with
  | a :: b :: rest =>
    if a.isDigit && b.isDigit then some ([a, b], rest)
    else if a.isDigit then some ([a], b :: rest) else none
  | [a] => if a.isDigit then some ([a], []) else none
  | [] => none

/-- Exactly `n` digits. -/
def exactDigits (n : Nat) (cs : List Char) : Option (List Char × List Char) :=
  let ds := cs.take n
  if ds.length == n && ds.all Char.isDigit then some (ds, cs.drop n) else none

/-- The rest behind a character. -/
def expectChar (c : Char) : List Char → Option (List Char)
  | d :: rest => if c == d then some rest else none
  | [] => none

/-- The zone at the end of a timestamp. -/
def timestampZone? (p : TimestampParts) (cs : List Char) : Option TimestampParts :=
  if cs.isEmpty then some p
  else
    match cs.dropWhile isSpaceOrTab with
    | ['Z'] => some { p with zone := some none }
    | sign :: rest =>
      if sign == '+' || sign == '-' then do
        let (hours, rest) ← oneOrTwoDigits rest
        if rest.isEmpty then
          return { p with zone := some (some (sign == '-', hours, [])) }
        let (minutes, rest) ← exactDigits 2 (← expectChar ':' rest)
        if rest.isEmpty then
          return { p with zone := some (some (sign == '-', hours, minutes)) }
        else none
      else none
    | [] => none

/-- The time behind a date. -/
def timestampTime? (p : TimestampParts) (cs : List Char) : Option TimestampParts := do
  let letter := cs.head? == some 'T' || cs.head? == some 't'
  let blanks := cs.takeWhile isSpaceOrTab
  if !letter && blanks.isEmpty then none
  let cs := if letter then cs.tail else cs.drop blanks.length
  let (hour, cs) ← oneOrTwoDigits cs
  let (minute, cs) ← exactDigits 2 (← expectChar ':' cs)
  let (second, cs) ← exactDigits 2 (← expectChar ':' cs)
  let (fraction, cs) := match cs with
    | '.' :: rest => (rest.takeWhile Char.isDigit, rest.dropWhile Char.isDigit)
    | _ => ([], cs)
  timestampZone? { p with time := some (hour, minute, second), fraction, letter } cs

/-- The parts of a timestamp. Months and days may have one digit. -/
def timestampParts? (cs : List Char) : Option TimestampParts := do
  let (year, cs) ← exactDigits 4 cs
  let (month, cs) ← oneOrTwoDigits (← expectChar '-' cs)
  let (day, cs) ← oneOrTwoDigits (← expectChar '-' cs)
  let p : TimestampParts := { year, month, day }
  if cs.isEmpty then return p
  timestampTime? p cs

/-- The form of a timestamp: without a time, months and days have two digits. -/
def isTimestampForm (cs : List Char) : Bool :=
  match timestampParts? cs with
  | some p => p.time.isSome || (p.month.length == 2 && p.day.length == 2)
  | none => false

/-- The type that the text of a plain scalar implies. -/
def Tag.ofPlain (edition : Edition) (text : String) : Tag :=
  let cs := text.toList
  let first := cs.headD ' '
  let signed := first == '-' || first == '+' || first.isDigit
  if (boolWords edition).contains text then .bool
  else if (signed || first == '.') && isFloatForm edition cs then .float
  else if signed && isIntForm edition cs then .int
  else if text == "<<" then .merge
  else if ["", "~", "null", "Null", "NULL"].contains text then .null
  else if first.isDigit && isTimestampForm cs then .timestamp
  else if text == "=" then .other (coreNamespace ++ "value")
  else .str

end BusinessModel.Yaml
