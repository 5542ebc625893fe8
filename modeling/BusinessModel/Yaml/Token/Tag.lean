import BusinessModel.Text.Utf8
import BusinessModel.Yaml.Token

/-!
Reading directives, anchors, aliases and tags.
-/

namespace BusinessModel.Yaml

/-- An ASCII letter or digit, a hyphen or an underscore. -/
def isHandleChar (c : Char) : Bool := c.isAlphanum || c == '-' || c == '_'

/-- A character of a directive's name. -/
def isDirectiveChar (c : Char) : Bool := isHandleChar c || c == ':' || c == '.'

/-- A character of a tag as it stands in a document. -/
def isUriChar (oldVersion : Bool) (c : Char) : Bool :=
  c.isAlphanum || "-;/?:@&=+$,_.!~*'()[]%".toList.contains c || (!oldVersion && c == '#')

/-- A character of an anchor's name. -/
def isAnchorChar (c : Char) : Bool :=
  let n := c.toNat
  !(c == ',' || c == '[' || c == ']' || c == '\x7b' || c == '\x7d') &&
    ((0x21 ≤ n && n ≤ 0x7E) || (0xA0 ≤ n && n ≤ 0xD7FF) ||
      (0xE000 ≤ n && n ≤ 0xFFFD && c != byteOrderMark) || 0x10000 ≤ n)

/-- Where a directive or one of its parts may end. -/
def endsDirective (c : Char) : Bool := c == ' ' || isBreakOrEnd c

/-- An error while reading a directive or a tag. -/
private def unexpected (context : Context) (start : Mark) (what : Expectation) (c : Cursor) :
    Error :=
  .at (some (context, start)) (.expected what c.peek) c.mark

/-- An anchor or an alias. -/
def anchorToken (isAlias : Bool) (c : Cursor) : Except Error (Token × Cursor) := do
  let start := c.mark
  let context := if isAlias then Context.aliasName else Context.anchor
  let (name, c) := c.next.span isAnchorChar
  if name.isEmpty then throw (unexpected context start .word c)
  let ch := c.peek
  if !(ch == ' ' || ch == '\t' || isBreakOrEnd ch || "?:,[]\x7b\x7d%@`".toList.contains ch) then
    throw (unexpected context start .word c)
  let name := String.ofList name
  let kind := if isAlias then TokenKind.aliasOf name else TokenKind.anchor name
  return ({ kind, startMark := start, endMark := c.mark }, c)

/-- The bytes of a run of percent escapes. -/
def uriEscapes (inDirective : Bool) (start : Mark) :
    Nat → Cursor → Except Error (List UInt8 × Cursor)
  | 0, c => .ok ([], c)
  | fuel + 1, c => do
    if c.peek != '%' then return ([], c)
    let c := c.next
    let digit (n : Nat) : Bool :=
      (c.peekAt n).isDigit || "abcdefABCDEF".toList.contains (c.peekAt n)
    if !digit 0 then throw (unexpected (.tagPart inDirective) start .uriEscape c)
    if !digit 1 then
      throw (.at (some (.tagPart inDirective, start)) (.expected .uriEscape (c.peekAt 1)) c.mark)
    let value (ch : Char) : Nat :=
      if ch.isDigit then ch.toNat - 48 else ch.toLower.toNat - 87
    let (bytes, rest) ← uriEscapes inDirective start fuel (c.advance 2)
    return (UInt8.ofNat (16 * value c.peek + value (c.peekAt 1)) :: bytes, rest)

/-- The text of a tag, with percent escapes replaced. -/
def uriText (oldVersion inDirective : Bool) (start : Mark) :
    Nat → Cursor → Except Error (List Char × Cursor)
  | 0, c => .ok ([], c)
  | fuel + 1, c => do
    let (cs, c) := c.span fun ch => isUriChar oldVersion ch && ch != '%'
    if c.peek != '%' then return (cs, c)
    let place := c.mark
    let (bytes, c) ← uriEscapes inDirective start fuel c
    match Text.decodeUtf8 bytes with
    | .error e =>
      throw (.at (some (.tagPart inDirective, start)) (.uriEncoding e.message) place)
    | .ok text =>
      let (rest, c) ← uriText oldVersion inDirective start fuel c
      return (cs ++ text.toList ++ rest, c)

/-- A tag's text, one character at least. -/
def tagUri (oldVersion inDirective : Bool) (start : Mark) (c : Cursor) :
    Except Error (String × Cursor) := do
  let (cs, c) ← uriText oldVersion inDirective start (c.size + 1) c
  if cs.isEmpty then throw (unexpected (.tagText inDirective) start .uri c)
  return (String.ofList cs, c)

/-- The handle of a tag: an exclamation mark, or a name between two of them. -/
def tagHandle (inDirective : Bool) (start : Mark) (c : Cursor) :
    Except Error (String × Cursor) := do
  if c.peek != '!' then throw (unexpected (.tagPart inDirective) start .exclamation c)
  let after := c.next
  if after.peek == ' ' then return ("!", after)
  let (name, after) := after.span isHandleChar
  if after.peek != '!' then throw (unexpected (.tagPart inDirective) start .exclamation after)
  return (String.ofList ('!' :: name ++ ['!']), after.next)

/-- A tag. -/
def tagToken (oldVersion : Bool) (c : Cursor) : Except Error (Token × Cursor) := do
  let start := c.mark
  let double := c.peekAt 1 == '!'
  let short := if double then "!!" else "!"
  let c := if double then c.next else c
  let ch := c.peekAt 1
  let (handle, suffix, c) ←
    if ch == '<' then do
      let (suffix, c) ← tagUri oldVersion false start (c.advance 2)
      if c.peek != '>' then
        throw (.at (some (.verbatimTag, start)) (.tagNotClosed c.peek) c.mark)
      pure (none, suffix, c.next)
    else if endsWord ch then
      pure (none, "!", c.next)
    else do
      let ahead := c.rest.tail.takeWhile fun ch => !endsDirective ch
      let (handle, c) ← if ahead.contains '!' then tagHandle false start c else pure (short, c.next)
      let (suffix, c) ← tagUri oldVersion false start c
      pure (some handle, suffix, c)
  if !endsDirective c.peek then throw (unexpected .tag start .space c)
  return ({ kind := .tag handle suffix, startMark := start, endMark := c.mark }, c)

/-- A number in a version directive. -/
def versionNumber (start : Mark) (c : Cursor) : Except Error (Nat × Cursor) := do
  let (digits, after) := c.span Char.isDigit
  if digits.isEmpty then throw (unexpected .directive start .digit c)
  return (digits.foldl (fun n d => 10 * n + (d.toNat - 48)) 0, after)

/-- The version that a version directive asks for. -/
def versionDirective (start : Mark) (c : Cursor) : Except Error (TokenKind × Cursor) := do
  let (major, c) ← versionNumber start c.skipSpaces
  if c.peek != '.' then throw (unexpected .directive start .digitOrPoint c)
  let (minor, c) ← versionNumber start c.next
  if !endsDirective c.peek then throw (unexpected .directive start .digitOrSpace c)
  return (.versionDirective major minor, c)

/-- The handle that a tag directive declares, and what it stands for. -/
def tagDirective (oldVersion : Bool) (start : Mark) (c : Cursor) :
    Except Error (TokenKind × Cursor) := do
  let (handle, c) ← tagHandle true start c.skipSpaces
  if c.peek != ' ' then throw (unexpected .directive start .space c)
  let (expansion, c) ← tagUri oldVersion true start c.skipSpaces
  if !endsDirective c.peek then throw (unexpected .directive start .space c)
  return (.tagDirective handle expansion, c)

/-- The name of a directive. -/
def directiveName (start : Mark) (c : Cursor) : Except Error (String × Cursor) := do
  let (name, c) := c.span isDirectiveChar
  if name.isEmpty || !endsDirective c.peek then throw (unexpected .directive start .word c)
  return (String.ofList name, c)

end BusinessModel.Yaml
