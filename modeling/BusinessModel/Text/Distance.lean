import BusinessModel.Text.Case
import BusinessModel.Value

/-!
How far two texts are apart, and the candidate that is closest to a text.

The distance is the least number of characters to insert, delete or replace. It is computed row by
row: a row holds the distances from the beginning of the first text that has been read to all the
beginnings of the second one.
-/

namespace BusinessModel.Text

/-- The rest of the next row, behind the distance `left`; `previous` is the rest of the row before,
from above `left` on. -/
def nextDistances (a : Char) : List Char → List Nat → Nat → List Nat
  | b :: bs, diagonal :: above :: row, left =>
    let replaced := if a == b then diagonal else diagonal + 1
    let d := min (min (above + 1) (left + 1)) replaced
    d :: nextDistances a bs (above :: row) d
  | _, _, _ => []

/-- The row behind one more character of the first text. -/
def nextRow (bs : List Char) (row : List Nat) (a : Char) : List Nat :=
  match row with
  | [] => []
  | first :: rest => (first + 1) :: nextDistances a bs (first :: rest) (first + 1)

/-- The distance of two sequences of characters. -/
def distanceOf (as bs : List Char) : Nat :=
  ((as.foldl (nextRow bs) (List.range (bs.length + 1))).getLast?).getD 0

/-- The distance of two texts, read along the longer one. -/
def distance (a b : String) : Nat :=
  if a.length < b.length then distanceOf b.toList a.toList else distanceOf a.toList b.toList

/-- The largest distance at which a text still counts as mistyped: two fifths of its length, one at
least. -/
def matchThreshold (s : String) : Nat := max 1 (2 * s.length / 5)

/-- The closest of the candidates and its distance, from a first bound on; of equally close ones the
first. -/
def closestFrom (needle : String) : List Value → Option String → Nat → Option String
  | [], best, _ => best
  | .str c :: rest, best, bound =>
    let d := distance needle (lower c)
    if d < bound then closestFrom needle rest (some c) d else closestFrom needle rest best bound
  | _ :: rest, best, bound => closestFrom needle rest best bound

/-- The candidate closest to a text, case apart, unless all are too far away. Candidates that are no
texts do not count. -/
def closest? (s : String) (candidates : List Value) : Option String :=
  if s.isEmpty then none else closestFrom (lower s) candidates none (matchThreshold s + 1)

/-- The suggestion of a text that may have been meant; the empty text is never suggested. -/
def didYouMean (closest : Option String) : Option String :=
  (closest.filter (!·.isEmpty)).map fun c => "Did you mean: \"" ++ c ++ "\"?"

end BusinessModel.Text
