import BusinessModel.Yaml.Tag

/-!
The quotation marks of scalars: a text is written without any if it cannot be mistaken for anything
else, and else between those that can hold it.
-/

namespace BusinessModel.Yaml

/-- The quotation marks around a scalar. -/
inductive Quoting where
  | plain
  /-- Between apostrophes. -/
  | single
  /-- Between double quotes, with escapes. -/
  | double
deriving DecidableEq, Repr, Inhabited

namespace Quoting

/-- A character that ends a line of a scalar. -/
def endsLine (c : Char) : Bool :=
  c == '\n' || c == '\x85' || c == '\u2028' || c == '\u2029'

/-- A character beyond ASCII that is written as it is. -/
def isWide (c : Char) : Bool :=
  let n := c.toNat
  (0xA0 ≤ n && n ≤ 0xD7FF) || (0xE000 ≤ n && n ≤ 0xFFFD && n != 0xFEFF) || 0x10000 ≤ n

/-- A character that only escapes can write. -/
def isSpecial (c : Char) : Bool :=
  !(c == '\n' || c == '\x85' || (' ' ≤ c && c ≤ '~') || isWide c)

/-- A space, an end of a line, or a character that counts as one beside an indicator. -/
def separates (c : Char) : Bool :=
  c == ' ' || c == '\t' || c == '\r' || c == '\x00' || endsLine c

/-- A character that no scalar without quotation marks starts with. -/
def opensOther (c : Char) : Bool := "#,[]\x7b\x7d&*!|>'\"%@\x60".toList.contains c

/-- Whether a collection or some other scalar would be read at the start of the text. -/
def startsOther (cs : List Char) : Bool :=
  match cs with
  | [] => false
  | c :: rest =>
    opensOther c || ((c == '-' || c == '?' || c == ':') && (rest.head?.all separates)) ||
      "---".toList.isPrefixOf cs || "...".toList.isPrefixOf cs

/-- Whether a key or a comment would be read inside the text: a colon before a blank or at the end,
or a number sign behind a blank. -/
def holdsOther : List Char → Bool
  | a :: b :: rest =>
    (b == ':' && rest.head?.all separates) || (b == '#' && separates a) || holdsOther (b :: rest)
  | _ => false

/-- Whether two neighbours are characters of the two kinds. -/
def adjacent (p q : Char → Bool) : List Char → Bool
  | a :: b :: rest => (p a && q b) || adjacent p q (b :: rest)
  | _ => false

/-- Whether a text has several lines. -/
def isMultiline (cs : List Char) : Bool := cs.any endsLine

/-- A space or an end of a line. -/
def isGap (c : Char) : Bool := c == ' ' || endsLine c

/-- Whether a text can be written between apostrophes. -/
def allowsSingle (cs : List Char) : Bool :=
  !cs.any isSpecial && !adjacent (· == ' ') endsLine cs && !adjacent endsLine (· == ' ') cs

/-- Whether a text can be written plain. -/
def allowsPlain (cs : List Char) : Bool :=
  allowsSingle cs && !isMultiline cs && !(cs.head?.any isGap) && !(cs.getLast?.any isGap) &&
    !startsOther cs && !holdsOther cs

/-- The quotation marks of a text: those asked for, or else the fewest with which it is read as a
text again. -/
def ofText (asked : Option Quoting) (text : String) : Quoting :=
  let cs := text.toList
  let quoted := if allowsSingle cs then Quoting.single else .double
  match asked with
  | some .double => .double
  | some .single => quoted
  | _ =>
    if Tag.ofPlain .v12 text == .str && allowsPlain cs then .plain
    else if cs.contains '\'' || cs.contains '\n' then .double
    else quoted

end Quoting

end BusinessModel.Yaml
