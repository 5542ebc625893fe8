import BusinessModel.Text.Blank
import BusinessModel.Text.Keyed
import BusinessModel.Text.Utf8

/-!
Files of assignments, one variable to a line: `NAME=value`, perhaps with `export` in front and a
comment behind. A name may stand in apostrophes, a value in either kind of quotation marks, also
over several lines. A line that is no assignment is left out.

Values may refer to variables as `${NAME}` or, with a value for the case that there is none, as
`${NAME:-value}`.
-/

namespace BusinessModel.EnvFile

/-- The end of a line. -/
def endsLine (c : Char) : Bool := c == '\n' || c == '\r'

/-- A blank inside a line. -/
def isSpace (c : Char) : Bool := Text.isBlank c && !endsLine c

/-- What is behind the spaces. -/
def skipSpaces (cs : List Char) : List Char := cs.dropWhile isSpace

/-- The next lines, behind what is left of this one. -/
def nextLines (cs : List Char) : List Char :=
  match cs.dropWhile (!endsLine ·) with
  | [] => []
  | _ :: rest => rest

/-- What is behind a word with spaces, if the characters begin with them. -/
def skipExport (cs : List Char) : List Char :=
  let word := "export".toList
  let rest := cs.drop word.length
  if word.isPrefixOf cs && (skipSpaces rest).length < rest.length then skipSpaces rest else cs

/-- The characters up to a closing quotation mark, and what is behind it. A mark behind a backslash
closes only if no other does; then the last one closes. `inside` are the characters so far and
`last` is what the last mark behind a backslash would give, both reversed. -/
def quoted (mark : Char) (inside : List Char) (last : Option (List Char × List Char)) :
    List Char → Option (List Char × List Char)
  | [] => last
  | '\\' :: c :: rest =>
    if c == mark then
      quoted mark (c :: '\\' :: inside) (some (('\\' :: inside).reverse, rest)) rest
    else quoted mark ('\\' :: inside) last (c :: rest)
  | c :: rest =>
    if c == mark then some (inside.reverse, rest) else quoted mark (c :: inside) last rest

/-- The name at the front of a line, with what is behind it. A comment has no name. -/
def name? : List Char → Option (Option (List Char) × List Char)
  | '#' :: rest => some (none, '#' :: rest)
  | '\'' :: rest =>
    let name := rest.takeWhile (· != '\'')
    match rest.drop name.length with
    | _ :: behind => if name.isEmpty then none else some (some name, behind)
    | [] => none
  | cs =>
    let name := cs.takeWhile fun c => !(c == '=' || c == '#' || Text.isBlank c)
    if name.isEmpty then none else some (some name, cs.drop name.length)

/-- The character that a letter behind a backslash stands for between double quotes. -/
def escaped? : Char → Option Char
  | '\\' => some '\\'
  | '\'' => some '\''
  | '"' => some '"'
  | 'a' => some '\x07'
  | 'b' => some '\x08'
  | 'f' => some '\x0c'
  | 'n' => some '\n'
  | 'r' => some '\r'
  | 't' => some '\t'
  | 'v' => some '\x0b'
  | _ => none

/-- The characters with their escapes resolved. -/
def unescape (escape? : Char → Option Char) : List Char → List Char
  | '\\' :: c :: rest =>
    match escape? c with
    | some d => d :: unescape escape? rest
    | none => '\\' :: unescape escape? (c :: rest)
  | c :: rest => c :: unescape escape? rest
  | [] => []

/-- What is escaped between apostrophes: they and the backslash. -/
def escapedMark? (c : Char) : Option Char :=
  if c == '\\' || c == '\'' then some c else none

/-- The characters before a comment, which begins with a blank and a number sign; `blanks` are the
blanks just passed, reversed. -/
def beforeComment (blanks : List Char) : List Char → List Char
  | [] => blanks.reverse
  | c :: rest =>
    if Text.isBlank c then beforeComment (c :: blanks) rest
    else if c == '#' && !blanks.isEmpty then []
    else blanks.reverse ++ c :: beforeComment [] rest

/-- A value without quotation marks: the rest of the line without a comment and the blanks at its
end. -/
def plainValue (line : List Char) : List Char :=
  ((beforeComment [] line).reverse.dropWhile Text.isBlank).reverse

/-- The value at the front, with what is behind it. -/
def value? : List Char → Option (List Char × List Char)
  | '\'' :: rest =>
    (quoted '\'' [] none rest).map fun (v, behind) => (unescape escapedMark? v, behind)
  | '"' :: rest => (quoted '"' [] none rest).map fun (v, behind) => (unescape escaped? v, behind)
  | cs =>
    let line := cs.takeWhile (!endsLine ·)
    some (plainValue line, cs.drop line.length)

/-- What is behind a comment, if there is one. -/
def skipComment (cs : List Char) : List Char :=
  match skipSpaces cs with
  | '#' :: rest => rest.dropWhile (!endsLine ·)
  | _ => cs

/-- The next line, if nothing but a comment is left of this one. -/
def lineEnd? (cs : List Char) : Option (List Char) :=
  match skipSpaces (skipComment cs) with
  | [] => some []
  | c :: rest => if endsLine c then some rest else none

/-- An assignment, or only a name. -/
abbrev Assignment := List Char × Option (List Char)

/-- What one line yields: the assignment, if it is one, and the lines behind it. -/
def line (cs : List Char) : Option Assignment × List Char :=
  let cs := skipExport cs
  match name? cs with
  | none => (none, nextLines cs)
  | some (name, behind) =>
    let behind := skipSpaces behind
    let (value, left) := match behind with
      | '=' :: rest =>
        let rest := skipSpaces rest
        match value? rest with
        | some (v, left) => (some (some v), left)
        | none => (none, rest)
      | _ => (some none, behind)
    match value with
    | none => (none, nextLines left)
    | some value =>
      match lineEnd? left with
      | some next => (name.map (·, value), next)
      | none => (none, nextLines left)

/-- The assignments in at most `fuel` lines. -/
def assignmentsFrom : Nat → List Char → List Assignment
  | 0, _ => []
  | fuel + 1, cs =>
    match cs.dropWhile Text.isBlank with
    | [] => []
    | cs =>
      let (assignment, next) := line cs
      assignment.toList ++ assignmentsFrom fuel next

/-- The assignments in a text. -/
def assignments (text : List Char) : List Assignment := assignmentsFrom (text.length + 1) text

/-- A reference to a variable at the front, behind `${`: its name, the value that it has otherwise,
and what is behind it. -/
def reference? (cs : List Char) : Option (List Char × List Char × List Char) :=
  let name := cs.takeWhile fun c => c != '\x7d' && c != ':'
  match cs.drop name.length with
  | '\x7d' :: rest => some (name, [], rest)
  | ':' :: '-' :: rest =>
    let other := rest.takeWhile (· != '\x7d')
    match rest.drop other.length with
    | _ :: behind => some (name, other, behind)
    | [] => none
  | _ => none

/-- The characters with the references in them replaced. At most `fuel` characters are looked at. -/
def expand (valueOf? : List Char → Option (List Char)) : Nat → List Char → List Char
  | fuel + 1, '$' :: '\x7b' :: rest =>
    match reference? rest with
    | some (name, other, behind) =>
      (valueOf? name).getD other ++ expand valueOf? fuel behind
    | none => '$' :: expand valueOf? fuel ('\x7b' :: rest)
  | fuel + 1, c :: rest => c :: expand valueOf? fuel rest
  | _, _ => []

/-- The value of a variable: as it was set before, or as it is in the environment. One without a
value is empty. -/
def valueOf? (environment assigned : List (String × Option String)) (name : List Char) :
    Option (List Char) :=
  let name := String.ofList name
  ((assigned.lookup name).orElse fun _ => environment.lookup name).map fun v => (v.getD "").toList

/-- The variables that a text sets, in order. -/
def read (environment : List (String × Option String)) (text : String) :
    List (String × Option String) :=
  (assignments (Text.unifyLines text.toList)).foldl (fun assigned (name, value) =>
    Keyed.put assigned (String.ofList name) (value.map fun v =>
      String.ofList (expand (valueOf? environment assigned) (v.length + 1) v))) []

end BusinessModel.EnvFile
