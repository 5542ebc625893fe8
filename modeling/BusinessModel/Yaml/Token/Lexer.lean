import BusinessModel.Yaml.Token.Scalar
import BusinessModel.Yaml.Token.Tag

/-!
The tokens of a text, one step of reading at a time.

A key without an indicator is recognised only at the colon behind it. Until then the place of its
token is remembered, one for each level of flow collections, and the colon puts the missing
indicator there. Tokens therefore wait in a queue until no key can start at the first of them.
-/

namespace BusinessModel.Yaml

/-- A token that a colon may turn into a key: its number in the sequence of all tokens, its
position, and whether the indentation demands a key there. -/
structure SimpleKey where
  number : Nat
  required : Bool
  index : Nat
  place : Mark
deriving Repr, Inhabited

/-- The state of reading. Flow collections are listed innermost first, `true` for a sequence; a
possible key is stored with the number of flow collections around it. `taken` counts the tokens that
have left the queue. -/
structure Lexer where
  cursor : Cursor
  flow : List Bool := []
  indent : Int := -1
  indents : List Int := []
  allowKey : Bool := true
  keys : List (Nat × SimpleKey) := []
  queue : List Token := []
  taken : Nat := 0
  done : Bool := false
  version : Option (Nat × Nat) := none
deriving Inhabited

namespace Lexer

/-- The start of a text: the first token opens the stream. -/
def start (cs : List Char) : Lexer :=
  let cursor := Cursor.start cs
  { cursor, queue := [Token.atMark .streamStart cursor.mark] }

/-- Whether a flow collection is open. -/
def inFlow (l : Lexer) : Bool := !l.flow.isEmpty

/-- Whether the text declares version 1.1. -/
def oldVersion (l : Lexer) : Bool := l.version == some (1, 1)

/-- The token at the end of the queue. -/
def push (l : Lexer) (t : Token) : Lexer := { l with queue := l.queue ++ [t] }

/-- A token of `n` characters at the cursor. -/
def pushChars (l : Lexer) (kind : TokenKind) (n : Nat) : Lexer :=
  let after := l.cursor.advance n
  { l with cursor := after }.push { kind, startMark := l.cursor.mark, endMark := after.mark }

/-- A token without extent at the cursor. -/
def pushEmpty (l : Lexer) (kind : TokenKind) : Lexer := l.push (Token.atMark kind l.cursor.mark)

/-- The report on a key that the indentation demands and that no colon follows. -/
def missingColon (l : Lexer) (k : SimpleKey) : Error :=
  .at (some (.simpleKey, k.place)) .missingColon l.cursor.mark

/-- The possible keys on the current line, at most 1024 characters back. -/
def dropStaleKeys (l : Lexer) : Except Error Lexer := do
  let stale (k : SimpleKey) : Bool :=
    k.place.line != l.cursor.line || l.cursor.index - k.index > 1024
  match l.keys.find? fun e => stale e.2 && e.2.required with
  | some (_, k) => throw (l.missingColon k)
  | none => return { l with keys := l.keys.filter fun e => !stale e.2 }

/-- No key starts at the remembered place of the current level any more. -/
def dropKey (l : Lexer) : Except Error Lexer := do
  let level := l.flow.length
  match l.keys.lookup level with
  | some k =>
    if k.required then throw (l.missingColon k)
    return { l with keys := l.keys.filter (·.1 != level) }
  | none => return l

/-- A key may start with the next token. -/
def saveKey (l : Lexer) : Except Error Lexer := do
  if !l.allowKey then return l
  let required := !l.inFlow && l.indent == l.cursor.column
  let l' ← l.dropKey
  let key : SimpleKey := ⟨l.taken + l.queue.length, required, l.cursor.index, l.cursor.mark⟩
  return { l' with keys := l'.keys ++ [(l.flow.length, key)] }

/-- Closes the blocks that are indented more than the column. -/
def unwindTo (column : Int) : List Int → Lexer → Lexer
  | [], l => l
  | outer :: rest, l =>
    if l.indent > column then
      unwindTo column rest ({ l with indent := outer, indents := rest }.pushEmpty .blockEnd)
    else l

/-- Closes the blocks that are indented more than the column; none inside a flow collection. -/
def unwind (column : Int) (l : Lexer) : Lexer :=
  if l.inFlow then l else unwindTo column l.indents l

/-- A block at the column, if the column lies deeper than the current block. -/
def openBlock? (l : Lexer) (column : Nat) : Option Lexer :=
  if l.indent < column then
    some { l with indents := l.indent :: l.indents, indent := column }
  else none

/-- Puts a token into the queue before the token with the given number. -/
def insert (l : Lexer) (number : Nat) (t : Token) : Lexer :=
  let i := number - l.taken
  { l with queue := l.queue.take i ++ t :: l.queue.drop i }

/-! ### Blanks and comments -/

/-- The run of line breaks behind a comment. -/
def skipBreaks : Nat → Cursor → Cursor
  | 0, c => c
  | fuel + 1, c =>
    match c.lineBreak? with
    | some (_, c) => skipBreaks fuel c
    | none => c

/-- Blank lines, with the spaces and tabs in them and behind the last. -/
def skipBlankLines : Nat → Cursor → Cursor
  | 0, c => c
  | fuel + 1, c =>
    match c.lineBreak? with
    | some (_, c) => skipBlankLines fuel c
    | none => if isSpaceOrTab c.peek then skipBlankLines fuel c.next else c

/-- A comment up to the end of its line and the blank lines behind it. -/
def commentEnd (c : Cursor) : Cursor :=
  let c := c.skipWhile (!endsLine ·)
  let c := if c.peek == endOfText then c else c.next
  skipBreaks c.size c

/-- Past blanks and line breaks to the next token or comment. Blank lines count as a comment; the
result has the comment's start, if there is one. `allowed` says whether a key may follow. -/
def blanks (inFlow : Bool) : Nat → Bool → Cursor → Option Mark × Bool × Cursor
  | 0, allowed, c => (none, allowed, c)
  | fuel + 1, allowed, c =>
    let c := c.skipSpaces
    if c.peek == '#' then (some c.mark, allowed || !inFlow, commentEnd c)
    else
      match c.lineBreak? with
      | none => (none, allowed, c)
      | some (_, c) =>
        let allowed := allowed || !inFlow
        if c.peek == '\n' then (some c.mark, allowed, skipBlankLines c.size c)
        else blanks inFlow fuel allowed c

/-- Past blanks, line breaks and at most one comment. -/
def skipBlanks (l : Lexer) : Option Mark × Lexer :=
  let c := l.cursor
  let c := if c.index == 0 && c.peek == byteOrderMark then c.next else c
  let (comment, allowKey, c) := blanks l.inFlow (c.size + 1) l.allowKey c
  (comment, { l with cursor := c, allowKey })

/-- Past blanks, line breaks and all comments. -/
def skipComments : Nat → Lexer → Lexer
  | 0, l => l
  | fuel + 1, l =>
    match l.skipBlanks with
    | (none, l) => l
    | (some _, l) => skipComments fuel l

/-! ### One token -/

/-- The end of the stream closes every block. -/
def fetchStreamEnd (l : Lexer) : Except Error Lexer := do
  let l ← (l.unwind (-1)).dropKey
  return { l with allowKey := false, keys := [], done := true }.pushEmpty .streamEnd

/-- A directive up to the end of its line. -/
def fetchDirective (l : Lexer) : Except Error Lexer := do
  let l ← (l.unwind (-1)).dropKey
  let start := l.cursor.mark
  let (name, c) ← directiveName start l.cursor.next
  let (kind, c) ←
    if name == "YAML" then versionDirective start c
    else if name == "TAG" then tagDirective l.oldVersion start c
    else pure (.otherDirective, c.skipWhile (!endsLine ·))
  let version := match kind with
    | .versionDirective major minor => some (major, minor)
    | _ => l.version
  let endMark := c.mark
  let (_, c) ← ignoredLine .directive start c
  return { l with allowKey := false, cursor := c, version }.push
    { kind, startMark := start, endMark }

/-- A line that starts or ends a document. -/
def fetchDocumentLine (kind : TokenKind) (l : Lexer) : Except Error Lexer := do
  let l ← (l.unwind (-1)).dropKey
  return { l with allowKey := false }.pushChars kind 3

/-- The start of a flow collection. -/
def fetchFlowStart (sequence : Bool) (l : Lexer) : Except Error Lexer := do
  let l ← l.saveKey
  let kind := if sequence then TokenKind.flowSequenceStart else .flowMappingStart
  return { l with flow := sequence :: l.flow, allowKey := true }.pushChars kind 1

/-- The end of a flow collection. -/
def fetchFlowEnd (kind : TokenKind) (l : Lexer) : Except Error Lexer := do
  let l ← l.dropKey
  return { l with flow := l.flow.tail, allowKey := false }.pushChars kind 1

/-- A comma. -/
def fetchFlowEntry (l : Lexer) : Except Error Lexer := do
  let l ← { l with allowKey := true }.dropKey
  return l.pushChars .flowEntry 1

/-- A hyphen before an item. -/
def fetchBlockEntry (l : Lexer) : Except Error Lexer := do
  let l ←
    if l.inFlow then pure l
    else if !l.allowKey then throw (.at none .sequenceNotAllowed l.cursor.mark)
    else match l.openBlock? l.cursor.column with
      | some l' => pure (l'.pushEmpty .blockSequenceStart)
      | none => pure l
  let l ← { l with allowKey := true }.dropKey
  return l.pushChars .blockEntry 1

/-- A question mark before a key. -/
def fetchKey (l : Lexer) : Except Error Lexer := do
  let l ←
    if l.inFlow then pure l
    else if !l.allowKey then throw (.at none .keyNotAllowed l.cursor.mark)
    else match l.openBlock? l.cursor.column with
      | some l' => pure (l'.pushEmpty .blockMappingStart)
      | none => pure l
  let l ← { l with allowKey := !l.inFlow }.dropKey
  return l.pushChars .key 1

/-- A colon: behind a possible key, or on its own. -/
def fetchValue (l : Lexer) : Except Error Lexer := do
  let level := l.flow.length
  match l.keys.lookup level with
  | some k =>
    let l := { l with keys := l.keys.filter (·.1 != level) }
    let l := l.insert k.number (Token.atMark .key k.place)
    let l :=
      if l.inFlow then l
      else match l.openBlock? k.place.column with
        | some l' => l'.insert k.number (Token.atMark .blockMappingStart k.place)
        | none => l
    return { l with allowKey := false }.pushChars .value 1
  | none =>
    let l ←
      if l.inFlow then pure l
      else if !l.allowKey then throw (.at none .valueNotAllowed l.cursor.mark)
      else match l.openBlock? l.cursor.column with
        | some l' => pure (l'.pushEmpty .blockMappingStart)
        | none => pure l
    let l ← { l with allowKey := !l.inFlow }.dropKey
    return l.pushChars .value 1

/-- A token that a key may start with and that no key follows. -/
def fetchKeyed (read : Cursor → Except Error (Token × Cursor)) (l : Lexer) :
    Except Error Lexer := do
  let l ← l.saveKey
  let (t, c) ← read l.cursor
  return { l with allowKey := false, cursor := c }.push t

/-- A block scalar. Breaks and comments behind it belong to it if it drops breaks. -/
def fetchBlockScalar (l : Lexer) : Except Error Lexer := do
  let l ← { l with allowKey := true }.dropKey
  let (t, trailing, c) ← blockScalar l.indent l.cursor
  let l := { l with cursor := c }
  let l := if trailing then skipComments (c.size + 1) l else l
  return l.push t

/-- A plain scalar. A key may follow if a line ended behind it. -/
def fetchPlain (l : Lexer) : Except Error Lexer := do
  let l ← l.saveKey
  let (t, brokeLine, c) ← plainScalar l.inFlow l.oldVersion l.indent l.cursor
  return { l with allowKey := brokeLine, cursor := c }.push t

/-- Whether a colon at the cursor separates a key from its value. -/
def startsValue (l : Lexer) : Bool :=
  let followed := !endsWord (l.cursor.peekAt 1)
  match l.flow with
  | [] => !followed
  | sequence :: _ =>
    if l.oldVersion then true
    else if sequence then !followed
    else if (l.queue.getLast?.map (·.kind)) == some .value then !followed
    else true

/-- Whether a plain scalar may start at the cursor. -/
def startsPlain (l : Lexer) : Bool :=
  let ch := l.cursor.peek
  let after := l.cursor.peekAt 1
  if !(isSpaceOrTab ch || isBreakOrEnd ch ||
      "-?:,[]\x7b\x7d#&*!|>'\"%@`".toList.contains ch) then true
  else if ch == ':' && l.inFlow && !l.oldVersion && !isSpaceOrTab after then true
  else !endsWord after && (ch == '-' || (!l.inFlow && (ch == '?' || ch == ':')))

/-- Reads one token, or one comment. -/
def fetch (l : Lexer) : Except Error Lexer := do
  let (comment, l) := l.skipBlanks
  match comment with
  | some start =>
    return l.push { kind := .comment, startMark := start, endMark := l.cursor.mark }
  | none =>
  let l ← l.dropStaleKeys
  let l := l.unwind l.cursor.column
  let c := l.cursor
  let ch := c.peek
  if c.rest.isEmpty then l.fetchStreamEnd
  else if ch == '%' && c.column == 0 then l.fetchDirective
  else if ch == '-' && c.column == 0 && c.atTriple '-' then l.fetchDocumentLine .documentStart
  else if ch == '.' && c.column == 0 && c.atTriple '.' then l.fetchDocumentLine .documentEnd
  else if ch == '[' then l.fetchFlowStart true
  else if ch == '\x7b' then l.fetchFlowStart false
  else if ch == ']' then l.fetchFlowEnd .flowSequenceEnd
  else if ch == '\x7d' then l.fetchFlowEnd .flowMappingEnd
  else if ch == ',' then l.fetchFlowEntry
  else if ch == '-' && endsWord (c.peekAt 1) then l.fetchBlockEntry
  else if ch == '?' && (l.inFlow || endsWord (c.peekAt 1)) then l.fetchKey
  else if ch == ':' && l.startsValue then l.fetchValue
  else if ch == '*' then l.fetchKeyed (anchorToken true)
  else if ch == '&' then l.fetchKeyed (anchorToken false)
  else if ch == '!' then l.fetchKeyed (tagToken l.oldVersion)
  else if (ch == '|' || ch == '>') && !l.inFlow then l.fetchBlockScalar
  else if ch == '\'' then l.fetchKeyed (quotedScalar false)
  else if ch == '"' then l.fetchKeyed (quotedScalar true)
  else if l.startsPlain then l.fetchPlain
  else throw (.at (some (.nextToken, c.mark)) (.cannotStart ch) c.mark)

end Lexer

end BusinessModel.Yaml
