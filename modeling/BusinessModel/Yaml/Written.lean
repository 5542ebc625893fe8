import BusinessModel.Document.Content
import BusinessModel.Yaml.Pen
import BusinessModel.Yaml.Quoting

/-!
Content in writing: collections with one entry or item to a line, and scalars with as few quotation
marks as possible. Long scalars are folded at spaces.
-/

namespace BusinessModel.Yaml

/-- How content is written: how far entries are indented in their mapping and items in their
sequence, how far a dash is, the width at which lines are folded, and the quotation
marks of texts. -/
structure Format where
  entryStep : Int := 2
  itemStep : Int := 4
  dashOffset : Int := 2
  width : Int := 120
  quoting : Option Quoting := none
deriving DecidableEq, Repr, Inhabited

/-- Where lines of a scalar may be folded: the width, the indentation of the lines behind the first
(the outermost scalar has none), and whether they may be folded at all. -/
structure Folding where
  width : Int
  indent : Option Int
  allowed : Bool
deriving DecidableEq, Repr, Inhabited

namespace Folding

/-- A new line of a scalar. -/
def fold (f : Folding) (p : Pen) : Pen := p.indentTo (f.indent.getD 0)

/-- Whether a line is too long with so many more characters. -/
def exceeds (f : Folding) (p : Pen) (more : Int) : Bool := f.allowed && p.column + more > f.width

/-- Whether a line already holds more than its indentation. -/
def isIndented (f : Folding) (p : Pen) : Bool := f.indent.any fun i => i < (p.column : Int)

/-- The runs of characters of one kind. -/
def runs (kind : Char → Nat) : List Char → List (List Char)
  | [] => []
  | c :: rest =>
    match runs kind rest with
    | (d :: run) :: more =>
      if kind c == kind d then (c :: d :: run) :: more else [c] :: (d :: run) :: more
    | more => [c] :: more

/-- The kinds of characters in a scalar: spaces, ends of lines, and all others. -/
def kind (c : Char) : Nat := if c == ' ' then 1 else if Quoting.endsLine c then 2 else 0

/-- Whether a run consists of spaces or ends of lines. -/
def isRunOf (p : Char → Bool) (run : List Char) : Bool := run.head?.any p

/-- A run of a plain scalar. A word that does not fit on the line goes to the next one. -/
def plainRun (f : Folding) (p : Pen) (run : List Char) : Pen :=
  if isRunOf (· == ' ') run then
    if run.length == 1 && f.exceeds p 0 then (f.fold p).inked else p.put run
  else if f.exceeds p run.length && f.isIndented p then (f.fold p).put run
  else p.put run

/-- A plain scalar. -/
def plain (f : Folding) (p : Pen) (cs : List Char) : Pen :=
  if cs.isEmpty then p
  else
    let p := (if p.blank then p else p.put [' ']).inked
    (runs kind cs).foldl f.plainRun p

/-- Ends of lines inside a scalar between apostrophes: the first line feed is written twice, because
a single one is read as a space. -/
def breakRun (f : Folding) (p : Pen) (run : List Char) : Pen :=
  let p := if run.head? == some '\n' then p.breakLine else p
  f.fold (run.foldl (fun p c => p.breakLine c) p)

/-- The runs of a scalar between apostrophes. `first` says whether a run is the first one. -/
def singleRuns (f : Folding) (first : Bool) (p : Pen) : List (List Char) → Pen
  | [] => p
  | run :: rest =>
    let p :=
      if isRunOf (· == ' ') run then
        if run.length == 1 && f.exceeds p 0 && !first && !rest.isEmpty then f.fold p
        else p.put run
      else if isRunOf Quoting.endsLine run then f.breakRun p run
      else p.put (run.flatMap fun c => if c == '\'' then ['\'', '\''] else [c])
    singleRuns f false p rest

/-- A scalar between apostrophes. -/
def single (f : Folding) (p : Pen) (cs : List Char) : Pen :=
  (f.singleRuns true (p.indicate ['\'']) (runs kind cs)).attach ['\'']

/-- The letters of escapes. -/
def escapeLetters : List (Char × Char) :=
  [('\x00', '0'), ('\x07', 'a'), ('\x08', 'b'), ('\t', 't'), ('\n', 'n'), ('\x0b', 'v'),
   ('\x0c', 'f'), ('\r', 'r'), ('\x1b', 'e'), ('"', '"'), ('\\', '\\'), ('\x85', 'N'),
   ('\u2028', 'L'), ('\u2029', 'P')]

/-- A number in at least `width` hexadecimal digits with capital letters. -/
def hexDigits (width n : Nat) : List Char := (Text.hexDigits width n).map Char.toUpper

/-- The escape of a character. -/
def escapeOf (c : Char) : List Char :=
  match escapeLetters.lookup c with
  | some letter => ['\\', letter]
  | none =>
    let n := c.toNat
    if n < 0x100 then '\\' :: 'x' :: hexDigits 2 n
    else if n < 0x10000 then '\\' :: 'u' :: hexDigits 4 n
    else '\\' :: 'U' :: hexDigits 8 n

/-- Whether a character is escaped between double quotes. -/
def isEscaped (c : Char) : Bool :=
  c == '"' || c == '\\' || Quoting.endsLine c || Quoting.isSpecial c

/-- The characters between double quotes. `pending` are those passed but not yet written, reversed.
A line is folded at a single space, which the new line stands for, or else behind a backslash. -/
def doubleFrom (f : Folding) (first : Bool) (pending : List Char) (p : Pen) : List Char → Pen
  | [] => p.put pending.reverse
  | c :: rest =>
    let escaped := isEscaped c
    let p := if escaped then (p.put pending.reverse).put (escapeOf c) else p
    let pending := if escaped then [] else pending
    let more : Int := if escaped then -1 else pending.length
    if !first && !rest.isEmpty && (c == ' ' || pending.isEmpty) && f.exceeds p more then
      let atSpace := c == ' ' && rest.head? != some ' '
      let p := (f.fold (p.put (pending.reverse ++ if atSpace then [] else ['\\']))).inked
      let next := if escaped then rest.head? else some c
      let p := if next == some ' ' && !atSpace then p.put ['\\'] else p
      doubleFrom f false (if escaped || atSpace then [] else [c]) p rest
    else doubleFrom f false (if escaped then [] else c :: pending) p rest

/-- A scalar between double quotes. -/
def double (f : Folding) (p : Pen) (cs : List Char) : Pen :=
  (f.doubleFrom true [] (p.indicate ['"']) cs).attach ['"']

/-- A scalar with its quotation marks. -/
def write (f : Folding) (quoting : Quoting) (p : Pen) (cs : List Char) : Pen :=
  match quoting with
  | .plain => f.plain p cs
  | .single => f.single p cs
  | .double => f.double p cs

end Folding

/-- Where a node stands. -/
inductive Place where
  /-- Alone in the document. -/
  | root
  /-- In a sequence. -/
  | item
  /-- In a mapping, behind the colon. -/
  | value
deriving DecidableEq, Repr

/-- The text of a scalar. Nothing is written as a word only at the root. -/
def scalarText (place : Place) : Scalar → String
  | .null => if place == .root then "null" else ""
  | .bool true => "true"
  | .bool false => "false"
  | .int n => Text.intText n
  | .float .nan => ".nan"
  | .float (.infinite negative) => if negative then "-.inf" else ".inf"
  | .float x => x.text
  | .str s => s

namespace Format

/-- The longest text on the line of its key. -/
def maxKeyLength : Nat := 122

/-- Whether a key stands on a line with its value. -/
def isSimpleKey (key : String) : Bool :=
  key.length ≤ maxKeyLength && !Quoting.isMultiline key.toList

/-- The indentation inside a place in a collection with an indentation. -/
def step (f : Format) (place : Place) (indent : Int) : Int :=
  match place with
  | .root => 0
  | .item => indent + f.itemStep
  | .value => indent + f.entryStep

/-- The indentation of the items of a sequence: in a mapping that of the mapping, unless the
sequence starts on the line of an indicator. -/
def itemIndent (f : Format) (place : Place) (indent : Int) (p : Pen) : Int :=
  if place == .value && !p.fresh then indent else f.step place indent

/-- Writes a scalar. -/
def scalar (f : Format) (place : Place) (indent : Int) (p : Pen) (s : Scalar) : Pen :=
  let inner := if place == .root then none else some (f.step place indent)
  let p := if place == .item then p.indentTo (inner.getD 0) else p
  let quoting := match s with
    | .str text => Quoting.ofText f.quoting text
    | _ => .plain
  (⟨f.width, inner, true⟩ : Folding).write quoting p (scalarText place s).toList

/-- Writes a key, with its colon if it is a simple one, else up to the colon on the next line. -/
def key (f : Format) (indent : Int) (p : Pen) (text : String) : Pen :=
  let p := p.indentTo indent
  let folding : Folding := ⟨f.width, some (indent + f.entryStep), !isSimpleKey text⟩
  let quoting := Quoting.ofText none text
  if isSimpleKey text then (folding.write quoting p text.toList).attach [':']
  else
    let p := folding.write quoting (p.indicate ['?'] true) text.toList
    (p.indentTo indent).indicate [':'] true

mutual

/-- Writes content at a place in a collection with an indentation. -/
def node (f : Format) (place : Place) (indent : Int) (p : Pen) : Content → Pen
  | .scalar s => f.scalar place indent p s
  | .sequence [] => p.indicate "[]".toList
  | .mapping [] => p.indicate "\x7b\x7d".toList
  | .sequence items => f.items (f.itemIndent place indent p) p items
  | .mapping entries => f.entries (f.step place indent) p entries

/-- Writes the items of a sequence. -/
def items (f : Format) (indent : Int) (p : Pen) : List Content → Pen
  | [] => p
  | c :: rest =>
    let dash := List.replicate f.dashOffset.toNat ' ' ++ ['-']
    f.items indent (f.node .item indent ((p.indentTo indent).indicate dash true) c) rest

/-- Writes the entries of a mapping. -/
def entries (f : Format) (indent : Int) (p : Pen) : List (String × Content) → Pen
  | [] => p
  | (k, c) :: rest => f.entries indent (f.node .value indent (f.key indent p k) c) rest

end

/-- Whether content is a single scalar without quotation marks, so that the end of the document has
to be marked. -/
def isOpenEnded (f : Format) : Content → Bool
  | .scalar (.str text) => Quoting.ofText f.quoting text == .plain
  | .scalar _ => true
  | _ => false

/-- The text of a document with the given content. -/
def document (f : Format) (c : Content) : String :=
  let p := (f.node .root 0 {} c).indentTo 0
  (if f.isOpenEnded c then (p.indicate "...".toList).indentTo 0 else p).text

end Format

end BusinessModel.Yaml
