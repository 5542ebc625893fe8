/-!
A pen: what has been written so far, and what the next thing to be written has to know of it.
-/

namespace BusinessModel.Yaml

/-- What has been written, the last character first, and the column behind it. `blank` says whether
it ends in a space, `fresh` whether the line holds nothing but indentation and indicators that open
a collection. -/
structure Pen where
  written : List Char := []
  column : Nat := 0
  blank : Bool := true
  fresh : Bool := true
deriving DecidableEq, Repr, Inhabited

namespace Pen

/-- The text written so far. -/
def text (p : Pen) : String := String.ofList p.written.reverse

/-- Writes characters that end no line. -/
def put (p : Pen) (cs : List Char) : Pen :=
  { p with written := cs.reverse ++ p.written, column := p.column + cs.length }

/-- Writes what is neither blank nor opens a collection. -/
def inked (p : Pen) : Pen := { p with blank := false, fresh := false }

/-- Ends the line with a character. -/
def breakLine (p : Pen) (c : Char := '\n') : Pen := ⟨c :: p.written, 0, true, true⟩

/-- Writes spaces up to a column. -/
def padTo (p : Pen) (column : Nat) : Pen :=
  if p.column < column then
    { p.put (List.replicate (column - p.column) ' ') with blank := true }
  else p

/-- Goes to an indentation: on this line if nothing stands in the way, else on a new one. -/
def indentTo (p : Pen) (indent : Int) : Pen :=
  let stay := p.fresh && (p.column < indent || (p.column == indent && p.blank))
  (if stay then p else p.breakLine).padTo indent.toNat

/-- Writes an indicator behind a space. `opens` says whether it opens a collection. -/
def indicate (p : Pen) (indicator : List Char) (opens : Bool := false) : Pen :=
  let p' := p.put (if p.blank then indicator else ' ' :: indicator)
  { p' with blank := false, fresh := p.fresh && opens }

/-- Writes an indicator right behind what is before it. -/
def attach (p : Pen) (indicator : List Char) : Pen := (p.put indicator).inked

end Pen

end BusinessModel.Yaml
