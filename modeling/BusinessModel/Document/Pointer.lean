import BusinessModel.Text.Quoted

/-!
Pointers: the path from the root of a document to a place in it, each segment behind a slash. Inside
a segment a tilde is written `~0` and a slash `~1`.
-/

namespace BusinessModel

/-- A step from a collection to one of its parts. -/
inductive Segment where
  | key (name : String)
  | index (n : Int)
deriving DecidableEq, Repr

namespace Segment

/-- The text of a segment. -/
def text : Segment → String
  | key name => name
  | index n => Text.intText n

end Segment

namespace Pointer

/-- The writing of one character of a segment. -/
def escapeChar (c : Char) : List Char :=
  if c == '~' then ['~', '0'] else if c == '/' then ['~', '1'] else [c]

/-- The writing of a segment's text. -/
def escape (s : String) : String := String.ofList (s.toList.flatMap escapeChar)

/-- The characters with every pair `a b` replaced by `c`, from left to right. -/
def replacePair (a b c : Char) : List Char → List Char
  | x :: y :: rest =>
    if x == a && y == b then c :: replacePair a b c rest else x :: replacePair a b c (y :: rest)
  | cs => cs

/-- The text of a written segment. -/
def unescape (s : String) : String :=
  String.ofList (replacePair '~' '0' '~' (replacePair '~' '1' '/' s.toList))

/-- The pointer to a part of what `base` points to. -/
def join (base : String) (segment : Segment) : String := base ++ "/" ++ escape segment.text

/-- The pointer along the segments from the root. -/
def ofSegments (segments : List Segment) : String :=
  String.join (segments.map fun s => "/" ++ escape s.text)

/-- The pieces of a text between slashes, one at least. -/
def piecesFrom : List Char → List (List Char)
  | [] => [[]]
  | c :: rest =>
    if c == '/' then [] :: piecesFrom rest
    else match piecesFrom rest with
      | piece :: pieces => (c :: piece) :: pieces
      | [] => [[c]]

/-- The pieces of a pointer between slashes, as written. -/
def pieces (p : String) : List String := (piecesFrom p.toList).map String.ofList

/-- The text of the last segment; nothing for the root. -/
def last? (p : String) : Option String :=
  if p.isEmpty then none else (pieces p).getLast?.map unescape

end Pointer

end BusinessModel
