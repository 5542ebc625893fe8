import BusinessModel.Text.Digit
import BusinessModel.Yaml.Token

/-!
Reading the texts of scalars: plain, in quotation marks, and as indented blocks.

Each reader takes the cursor at the first character of its scalar and returns the cursor behind the
last one. A line break inside a scalar is folded: one break stands for a space, and of more the
first is dropped.
-/

namespace BusinessModel.Yaml

/-! ### Quoted scalars -/

/-- The characters that a backslash and one character stand for. -/
def simpleEscape? (c : Char) : Option Char :=
  match c with
  | '0' => some (Char.ofNat 0)
  | 'a' => some (Char.ofNat 7)
  | 'b' => some (Char.ofNat 8)
  | 't' | '\t' => some '\t'
  | 'n' => some '\n'
  | 'v' => some (Char.ofNat 11)
  | 'f' => some (Char.ofNat 12)
  | 'r' => some '\r'
  | 'e' => some (Char.ofNat 27)
  | ' ' => some ' '
  | '"' => some '"'
  | '/' => some '/'
  | '\\' => some '\\'
  | 'N' => some (Char.ofNat 0x85)
  | '_' => some (Char.ofNat 0xA0)
  | 'L' => some (Char.ofNat 0x2028)
  | 'P' => some (Char.ofNat 0x2029)
  | _ => none

/-- The number of hexadecimal digits that follow an escape character. -/
def escapeDigits? (c : Char) : Option Nat :=
  match c with
  | 'x' => some 2
  | 'u' => some 4
  | 'U' => some 8
  | _ => none

/-- Exactly `n` hexadecimal digits at the cursor, or the first character that is none. -/
def hexNumber (n : Nat) (c : Cursor) : Except Char Nat :=
  let cs := (List.range n).map c.peekAt
  match cs.find? fun ch => (Text.hexValue? ch).isNone with
  | some ch => .error ch
  | none => .ok (cs.foldl (fun v ch => 16 * v + (Text.hexValue? ch).getD 0) 0)

/-- The character of an escaped number. -/
def escapedChar (code : Nat) : Except Error Char :=
  if code < 0x110000 then .ok (Char.ofNat code)
  else if code < Nat.pow 2 31 then .error (.scalarValue "chr() arg not in range(0x110000)")
  else .error .escapeOverflow

/-- The breaks of the blank lines at the cursor inside a quoted scalar. The line that follows must
not be a document separator. -/
def quotedBreaks (start : Mark) : Nat → Cursor → Except Error (List Char × Cursor)
  | 0, c => .ok ([], c)
  | fuel + 1, c => do
    if c.atSeparatorLine then
      throw (.at (some (.quoted, start)) .unexpectedSeparator c.mark)
    let c := c.skipWhile isSpaceOrTab
    match c.lineBreak? with
    | some (b, c) =>
      let (bs, c) ← quotedBreaks start fuel c
      return (b :: bs, c)
    | none => return ([], c)

/-- What a line break followed by further breaks folds to. -/
def foldBreaks (first : Char) (breaks : List Char) : List Char :=
  if first != '\n' then first :: breaks
  else if breaks.isEmpty then [' ']
  else breaks

/-- The blanks at the cursor inside a quoted scalar, folded if a line ends among them. -/
def quotedBlanks (start : Mark) (c : Cursor) : Except Error (List Char × Cursor) := do
  let (blanks, c) := c.span isSpaceOrTab
  if c.peek == endOfText then
    throw (.at (some (.quoted, start)) .unexpectedEnd c.mark)
  match c.lineBreak? with
  | some (b, c) =>
    let (breaks, c) ← quotedBreaks start c.size c
    return (foldBreaks b breaks, c)
  | none => return (blanks, c)

/-- A character that stands for itself inside quotation marks. -/
def isQuotedText (c : Char) : Bool :=
  !(c == ' ' || c == '\t' || c == '\'' || c == '"' || c == '\\' || isBreakOrEnd c)

/-- One escape sequence of a scalar in double quotes, with the cursor at the backslash. -/
def escapeSequence (start : Mark) (c : Cursor) : Except Error (List Char × Cursor) := do
  let c := c.next
  let ch := c.peek
  match simpleEscape? ch with
  | some v => return ([v], c.next)
  | none =>
    match escapeDigits? ch with
    | some n =>
      let c := c.next
      match hexNumber n c with
      | .ok code => return ([← escapedChar code], c.advance n)
      | .error bad => throw (.at (some (.doubleQuoted, start)) (.expected (.escape n) bad) c.mark)
    | none =>
      match c.lineBreak? with
      | some (_, c) => quotedBreaks start c.size c
      | none => throw (.at (some (.doubleQuoted, start)) (.unknownEscape ch) c.mark)

/-- The text of a quoted scalar up to its closing mark. -/
def quotedText (double : Bool) (start : Mark) : Nat → Cursor → Except Error (List Char × Cursor)
  | 0, c => .error (.at (some (.quoted, start)) .unexpectedEnd c.mark)
  | fuel + 1, c => do
    let (cs, c) := c.span isQuotedText
    let ch := c.peek
    if double then
      if ch == '"' then return (cs, c.next)
      let (more, c) ←
        if ch == '\'' then pure ([ch], c.next)
        else if ch == '\\' then escapeSequence start c
        else quotedBlanks start c
      let (rest, c) ← quotedText double start fuel c
      return (cs ++ more ++ rest, c)
    else
      if ch == '\'' && c.peekAt 1 != '\'' then return (cs, c.next)
      let (more, c) ←
        if ch == '\'' then pure ([ch], c.advance 2)
        else if ch == '"' || ch == '\\' then pure ([ch], c.next)
        else quotedBlanks start c
      let (rest, c) ← quotedText double start fuel c
      return (cs ++ more ++ rest, c)

/-- A scalar in quotation marks. -/
def quotedScalar (double : Bool) (c : Cursor) : Except Error (Token × Cursor) := do
  let start := c.mark
  let (cs, c) ← quotedText double start (c.size + 1) c.next
  let style := if double then .doubleQuoted else .singleQuoted
  return ({ kind := .scalar (String.ofList cs) style, startMark := start, endMark := c.mark }, c)

/-! ### Block scalars -/

/-- What happens to the line breaks at the end of a block scalar. -/
inductive Chomping where
  | strip
  | clip
  | keep
deriving DecidableEq, Repr

/-- The chomping that an indicator asks for. -/
def chomping? (c : Char) : Option Chomping :=
  if c == '+' then some .keep else if c == '-' then some .strip else none

/-- The indentation indicator at the cursor, if there is one. -/
def indentationIndicator (start : Mark) (c : Cursor) : Except Error (Option Nat × Cursor) :=
  let ch := c.peek
  if ch == '0' then .error (.at (some (.blockScalar, start)) .zeroIndentation c.mark)
  else if '1' ≤ ch ∧ ch ≤ '9' then .ok (some (ch.toNat - 48), c.next)
  else .ok (none, c)

/-- The indicators behind the mark of a block scalar, in either order. -/
def blockIndicators (start : Mark) (c : Cursor) :
    Except Error (Chomping × Option Nat × Cursor) := do
  let (chomping, increment, c) ←
    match chomping? c.peek with
    | some chomping =>
      let (increment, c) ← indentationIndicator start c.next
      pure (chomping, increment, c)
    | none =>
      let (increment, c) ← indentationIndicator start c
      match increment.bind fun _ => chomping? c.peek with
      | some chomping => pure (chomping, increment, c.next)
      | none => pure (.clip, increment, c)
  if c.peek == ' ' || isBreakOrEnd c.peek then return (chomping, increment, c)
  throw (.at (some (.blockScalar, start)) (.expected .blockIndicators c.peek) c.mark)

/-- The rest of a line that may hold nothing but a comment, and whether it holds one. -/
def ignoredLine (context : Context) (start : Mark) (c : Cursor) :
    Except Error (Bool × Cursor) := do
  let c := c.skipSpaces
  let commented := c.peek == '#'
  let c := if commented then c.skipWhile (!endsLine ·) else c
  if !endsLine c.peek then
    throw (.at (some (context, start)) (.expected .commentOrBreak c.peek) c.mark)
  match c.lineBreak? with
  | some (_, c) => return (commented, c)
  | none => return (commented, c)

/-- The breaks of the blank lines at the cursor, the largest column among them, and the place
behind the last break. -/
def leadingBreaks : Nat → Nat → Mark → Cursor → List Char × Nat × Mark × Cursor
  | 0, width, last, c => ([], width, last, c)
  | fuel + 1, width, last, c =>
    match c.lineBreak? with
    | some (b, c) =>
      let (bs, width, last, c) := leadingBreaks fuel width c.mark c
      (b :: bs, width, last, c)
    | none =>
      if c.peek == ' ' then
        let c := c.next
        leadingBreaks fuel (max width c.column) last c
      else ([], width, last, c)

/-- The breaks of the lines that hold nothing but indentation, and the place behind the last. -/
def blockBreaks (indent : Nat) : Nat → Mark → Cursor → List Char × Mark × Cursor
  | 0, last, c => ([], last, c)
  | fuel + 1, last, c =>
    let c := c.skipSpacesTo indent
    match c.lineBreak? with
    | some (b, c) =>
      let (bs, last, c) := blockBreaks indent fuel c.mark c
      (b :: bs, last, c)
    | none => ([], last, c)

/-- The lines of a block scalar: the text read, the last line break, the breaks behind it, and the
place where the scalar ends. `topLevel` says that the text may stand without indentation, where a
document separator ends it. -/
def blockLines (folded topLevel : Bool) (indent : Nat) :
    Nat → List Char → Mark → Cursor → List Char × List Char × List Char × Mark × Cursor
  | 0, breaks, last, c => ([], [], breaks, last, c)
  | fuel + 1, breaks, last, c =>
    if c.column != indent || c.peek == endOfText then ([], [], breaks, last, c)
    else
      let startsText := !isSpaceOrTab c.peek
      let (line, c) := c.span (!endsLine ·)
      let (lineEnd, c) := match c.lineBreak? with
        | some (b, c) => ([b], c)
        | none => ([], c)
      let (more, last, c) := blockBreaks indent c.size c.mark c
      let here := breaks ++ line
      if (topLevel && c.column == 0 && c.atSeparatorLine) || c.column != indent ||
          c.peek == endOfText then
        (here, lineEnd, more, last, c)
      else
        let joint :=
          if folded && lineEnd == ['\n'] && startsText && !isSpaceOrTab c.peek then
            if more.isEmpty then [' '] else []
          else lineEnd
        let (text, lineEnd, more, last, c) := blockLines folded topLevel indent fuel more last c
        (here ++ joint ++ text, lineEnd, more, last, c)

/-- A block scalar in a collection indented by `parent`, `-1` at the top. The second part of the
result says whether breaks behind the text are left to be taken as a comment. -/
def blockScalar (parent : Int) (c : Cursor) : Except Error (Token × Bool × Cursor) := do
  let start := c.mark
  let folded := c.peek == '>'
  let (chomping, increment, c) ← blockIndicators start c.next
  let (commented, c) ← ignoredLine .blockScalar start c
  let least := (parent + 1).toNat
  let fuel := c.size + 1
  let (indent, breaks, last, c) :=
    match increment with
    | none =>
      let (breaks, width, last, c) := leadingBreaks fuel 0 c.mark c
      (max least width, breaks, last, c)
    | some n =>
      let indent := max least 1 + n - 1
      let (breaks, last, c) := blockBreaks indent fuel c.mark c
      (indent, breaks, last, c)
  let topLevel := least == 0 && increment.isNone
  let (text, lineEnd, breaks, last, c) := blockLines folded topLevel indent fuel breaks last c
  let text := match chomping with
    | .strip => text
    | .clip => text ++ lineEnd
    | .keep => text ++ lineEnd ++ breaks
  let trailing := chomping != .keep && !breaks.isEmpty
  let style := if folded then .folded else .literal
  return ({ kind := .scalar (String.ofList text) style, startMark := start, endMark := last,
            commentBefore := commented, commentAfter := trailing }, trailing, c)

/-! ### Plain scalars -/

/-- Whether a plain scalar ends before the first of the characters. In a flow collection the
indicators end it, but for a colon without a blank behind it and, from version 1.2 on, a question
mark. -/
def endsPlain (inFlow oldVersion : Bool) : List Char → Bool
  | [] => true
  | ch :: rest =>
    let followed := !endsWord (rest.headD endOfText)
    if ch == ':' && followed then false
    else if ch == '?' && !oldVersion then false
    else endsWord ch || ch == ':' && !inFlow ||
      inFlow && (ch == ',' || ch == ':' || ch == '?' || ch == '[' || ch == ']' || ch == '\x7b' ||
        ch == '\x7d')

/-- The characters of a plain scalar up to where it ends. -/
def plainRun (inFlow oldVersion : Bool) : List Char → List Char
  | [] => []
  | ch :: rest =>
    if endsPlain inFlow oldVersion (ch :: rest) then []
    else ch :: plainRun inFlow oldVersion rest

/-- The blank lines inside a plain scalar: their breaks, and the cursor behind them; `none` if a
document separator follows one of them. -/
def plainBreaks : Nat → Cursor → Option (List Char) × Cursor
  | 0, c => (some [], c)
  | fuel + 1, c =>
    let c := c.skipSpaces
    match c.lineBreak? with
    | none => (some [], c)
    | some (b, c) =>
      if c.atSeparatorLine then (none, c)
      else
        let (bs, c) := plainBreaks fuel c
        (bs.map (b :: ·), c)

/-- The blanks between two parts of a plain scalar, folded, whether a line ended among them, and
the cursor behind them. `none` stands for blanks that a document separator follows. -/
def plainBlanks (c : Cursor) : Option (List Char) × Bool × Cursor :=
  let (spaces, c) := c.span (· == ' ')
  match c.lineBreak? with
  | none => (some spaces, false, c)
  | some (b, c) =>
    if c.atSeparatorLine then (none, true, c)
    else
      let (breaks, c) := plainBreaks (c.size + 1) c
      (breaks.map (foldBreaks b), true, c)

/-- What reading a plain scalar yields: its parts, last first, the place behind them, the folded
blanks that follow, and whether a line ended among the last blanks read. -/
structure PlainText where
  parts : List (List Char)
  endMark : Mark
  blanks : List Char
  brokeLine : Bool
  cursor : Cursor

/-- The parts of a plain scalar, with the blanks between them. `blanks` precede the next part. -/
def plainParts (inFlow oldVersion : Bool) (indent : Nat) (start : Mark) :
    Nat → PlainText → Except Error PlainText
  | 0, p => .ok p
  | fuel + 1, p => do
    let c := p.cursor
    if c.peek == '#' then return p
    let part := plainRun inFlow oldVersion c.rest
    let c' := c.advance part.length
    if inFlow && c'.peek == ':' then
      let after := c'.peekAt 1
      if !(endsWord after || isSeparator after || after == ',' || after == '[' || after == ']' ||
          after == '\x7b' || after == '\x7d') then
        throw (.at (some (.plain, start)) .unexpectedColon c'.mark)
    if part.isEmpty then return p
    let (blanks?, brokeLine, c'') := plainBlanks c'
    let blanks := blanks?.getD []
    let p : PlainText := ⟨part :: p.blanks :: p.parts, c'.mark, blanks, brokeLine, c''⟩
    if blanks.isEmpty || c''.peek == '#' || (!inFlow && c''.column < indent) then return p
    plainParts inFlow oldVersion indent start fuel p

/-- A plain scalar; also says whether a simple key may follow because a line ended behind it. -/
def plainScalar (inFlow oldVersion : Bool) (indent : Int) (c : Cursor) :
    Except Error (Token × Bool × Cursor) := do
  let start := c.mark
  let p ← plainParts inFlow oldVersion (indent + 1).toNat start (c.size + 1)
    ⟨[], start, [], false, c⟩
  let trailing := p.blanks.head? == some '\n'
  return ({ kind := .scalar (String.ofList p.parts.reverse.flatten) .plain, startMark := start,
            endMark := p.endMark, commentAfter := trailing }, p.brokeLine, p.cursor)

end BusinessModel.Yaml
