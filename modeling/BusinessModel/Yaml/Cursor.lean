/-!
A place in a text: the characters still to be read, and the line and column they start at.
-/

namespace BusinessModel.Yaml

/-- A position in a text. Lines and columns count from zero. -/
structure Mark where
  line : Nat
  column : Nat
deriving DecidableEq, Repr, Inhabited

/-- The characters that are left, their number, and the position of the first of them. -/
structure Cursor where
  rest : List Char
  size : Nat
  index : Nat := 0
  line : Nat := 0
  column : Nat := 0
  size_eq : size = rest.length := by simp

instance : Inhabited Cursor := ⟨{ rest := [], size := 0 }⟩

/-- What is read at the end of a text. The character itself never occurs in one. -/
def endOfText : Char := '\x00'

/-- The mark that may open a text and takes no column. -/
def byteOrderMark : Char := Char.ofNat 0xFEFF

namespace Cursor

/-- The beginning of a text. -/
def start (cs : List Char) : Cursor := { rest := cs, size := cs.length }

/-- The position of the cursor. -/
def mark (c : Cursor) : Mark := ⟨c.line, c.column⟩

/-- The next character. -/
def peek (c : Cursor) : Char := c.rest.headD endOfText

/-- The character `n` places ahead. -/
def peekAt (c : Cursor) (n : Nat) : Char := c.rest.getD n endOfText

/-- Past the next character. A line feed ends a line, and so does a carriage return on its own. -/
def next (c : Cursor) : Cursor :=
  match h : c.rest with
  | [] => c
  | ch :: rest =>
    have size_eq : c.size - 1 = rest.length := by simp [c.size_eq, h]
    if ch == '\n' || (ch == '\r' && rest.head? != some '\n') then
      ⟨rest, c.size - 1, c.index + 1, c.line + 1, 0, size_eq⟩
    else if ch == byteOrderMark then
      ⟨rest, c.size - 1, c.index + 1, c.line, c.column, size_eq⟩
    else
      ⟨rest, c.size - 1, c.index + 1, c.line, c.column + 1, size_eq⟩

/-- Past the next `n` characters. -/
def advance : Nat → Cursor → Cursor
  | 0, c => c
  | n + 1, c => advance n c.next

/-- The longest run of characters with the property, and the cursor behind it. -/
def span (p : Char → Bool) (c : Cursor) : List Char × Cursor :=
  let cs := c.rest.takeWhile p
  (cs, c.advance cs.length)

/-- Past the longest run of characters with the property. -/
def skipWhile (p : Char → Bool) (c : Cursor) : Cursor := (c.span p).2

/-- Past the spaces. -/
def skipSpaces (c : Cursor) : Cursor := c.skipWhile (· == ' ')

/-- Past the spaces before a column. -/
def skipSpacesTo (column : Nat) (c : Cursor) : Cursor :=
  let spaces := (c.rest.takeWhile (· == ' ')).length
  c.advance (min spaces (column - c.column))

end Cursor

/-- The end of a line or of the text. -/
def endsLine (c : Char) : Bool := c == '\n' || c == endOfText || c == '\r' || c == '\x85'

/-- A blank, or the end of a line or of the text. -/
def endsWord (c : Char) : Bool := c == ' ' || c == '\t' || endsLine c

/-- The two separators that break a line and stay in its text. -/
def isSeparator (c : Char) : Bool := c == '\u2028' || c == '\u2029'

/-- A character that breaks a line. -/
def isBreak (c : Char) : Bool := c == '\r' || c == '\n' || c == '\x85' || isSeparator c

/-- The end of the text or a character that breaks a line. -/
def isBreakOrEnd (c : Char) : Bool := c == endOfText || isBreak c

/-- A space or a tab. -/
def isSpaceOrTab (c : Char) : Bool := c == ' ' || c == '\t'

namespace Cursor

/-- Past one line break, with the text that stands for it: a line feed, or the separator itself. -/
def lineBreak? (c : Cursor) : Option (Char × Cursor) :=
  let ch := c.peek
  if ch == '\r' && c.peekAt 1 == '\n' then some ('\n', c.advance 2)
  else if ch == '\r' || ch == '\n' || ch == '\x85' then some ('\n', c.next)
  else if isSeparator ch then some (ch, c.next)
  else none

/-- Three equal characters at the cursor, with the end of a word behind them. -/
def atTriple (ch : Char) (c : Cursor) : Bool :=
  c.rest.take 3 == [ch, ch, ch] && endsWord (c.peekAt 3)

/-- A document separator at the cursor. -/
def atSeparatorLine (c : Cursor) : Bool := c.atTriple '-' || c.atTriple '.'

end Cursor

end BusinessModel.Yaml
