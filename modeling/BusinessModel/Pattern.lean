import BusinessModel.Text.Blank
import BusinessModel.Text.Case
import BusinessModel.Text.Digit
import BusinessModel.Text.Word

/-!
Patterns of texts, and the search for a part of a text that matches one.

A search tries the ways a pattern can match in a fixed order: the first alternative before the
second, and as many repetitions as possible or as few, as the repetition says. What follows a part
of the pattern is given to it as a function, so a later failure takes up the search again.
-/

namespace BusinessModel

/-- A test on one character. -/
inductive CharTest where
  | nothing
  | everything
  | exactly (c : Char)
  | between (low high : Char)
  | digit (ascii : Bool)
  | word (ascii : Bool)
  | blank (ascii : Bool)
  | not (t : CharTest)
  | either (a b : CharTest)
  | ignoringCase (t : CharTest)
deriving DecidableEq, Repr, Inhabited

namespace CharTest

/-- The other cases of a character, itself included. -/
def cases (c : Char) : List Char :=
  c :: (Text.lowerChar c).take 1 ++ (Text.upperChar c).take 1

/-- Whether a character passes the test. -/
def accepts : CharTest → Char → Bool
  | nothing, _ => false
  | everything, _ => true
  | exactly d, c => c == d
  | between low high, c => low ≤ c && c ≤ high
  | digit ascii, c => if ascii then c.isDigit else Text.isDecimal c
  | word ascii, c => (!ascii || c.toNat < 128) && Text.isWord c
  | blank ascii, c => (!ascii || c.toNat < 128) && Text.isBlank c
  | not t, c => !t.accepts c
  | either a b, c => a.accepts c || b.accepts c
  | ignoringCase t, c => (cases c).any t.accepts

end CharTest

/-- A condition on a position in a text. -/
inductive Anchor where
  | textStart
  | lineStart
  /-- The end of the text, or the place before a line feed that ends it. -/
  | textEnd
  | lineEnd
  | absoluteEnd
  | wordEdge (ascii : Bool)
  /-- A place between two characters of a word or two others; an empty text has none. -/
  | noWordEdge (ascii : Bool)
deriving DecidableEq, Repr

/-- How a repetition is tried. -/
inductive Greed where
  | greedy
  | lazy
  | possessive
deriving DecidableEq, Repr

/-- A pattern. -/
inductive Pattern where
  | empty
  | char (t : CharTest)
  | seq (a b : Pattern)
  | alt (a b : Pattern)
  | repeated (greed : Greed) (least : Nat) (most : Option Nat) (p : Pattern)
  | group (n : Nat) (p : Pattern)
  | reference (n : Nat) (ignoreCase : Bool)
  | anchor (a : Anchor)
  | ahead (negated : Bool) (p : Pattern)
  | behind (negated : Bool) (width : Nat) (p : Pattern)
  | atomic (p : Pattern)
  | conditional (n : Nat) (yes no : Pattern)
deriving DecidableEq, Repr, Inhabited

/-- A position in a text: the characters before it, nearest first, those behind it, and the texts
that groups have matched. -/
structure Spot where
  before : List Char
  rest : List Char
  groups : List (Nat × List Char) := []
deriving Repr, Inhabited

namespace Spot

/-- The characters between an earlier position and this one. -/
def since (s earlier : Spot) : List Char :=
  earlier.rest.take (earlier.rest.length - s.rest.length)

/-- Whether the condition holds at the position. -/
def satisfies (s : Spot) : Anchor → Bool
  | .textStart => s.before.isEmpty
  | .lineStart => s.before.isEmpty || s.before.head? == some '\n'
  | .textEnd => s.rest.isEmpty || s.rest == ['\n']
  | .lineEnd => s.rest.isEmpty || s.rest.head? == some '\n'
  | .absoluteEnd => s.rest.isEmpty
  | .wordEdge ascii => edge ascii
  | .noWordEdge ascii => !(s.before.isEmpty && s.rest.isEmpty) && !edge ascii
where
  /-- Whether exactly one of the characters around the position belongs to a word. -/
  edge (ascii : Bool) : Bool :=
    (s.before.head?.any (CharTest.word ascii).accepts) !=
      (s.rest.head?.any (CharTest.word ascii).accepts)

/-- Past the given characters, if they come next. -/
def skip? (ignoreCase : Bool) : List Char → Spot → Option Spot
  | [], s => some s
  | c :: cs, s =>
    match s.rest with
    | d :: rest =>
      let same := c == d || (ignoreCase && (CharTest.ignoringCase (.exactly c)).accepts d)
      if same then skip? ignoreCase cs { s with before := d :: s.before, rest } else none
    | [] => none

end Spot

namespace Pattern

/-- What remains to be matched, as a function from a position to the position at the end. -/
abbrev Continuation := Spot → Option Spot

/-- Repeats a step, at least `least` and at most `most` times. Beyond the least number, a repetition
has to consume something. -/
def repeatStep (step : Spot → Continuation → Option Spot) (eager : Bool) :
    Nat → Nat → Option Nat → Spot → Continuation → Option Spot
  | 0, _, _, s, k => k s
  | fuel + 1, least, most, s, k =>
    match least with
    | n + 1 => step s fun s' => repeatStep step eager fuel n (most.map (· - 1)) s' k
    | 0 =>
      if most == some 0 then k s
      else
        let more (_ : Unit) := step s fun s' =>
          if s'.rest.length == s.rest.length then none
          else repeatStep step eager fuel 0 (most.map (· - 1)) s' k
        if eager then (more ()).orElse fun _ => k s else (k s).orElse more

/-- Matches a pattern at a position and then what remains. -/
def run : Pattern → Spot → Continuation → Option Spot
  | empty, s, k => k s
  | char t, s, k =>
    match s.rest with
    | c :: rest => if t.accepts c then k { s with before := c :: s.before, rest } else none
    | [] => none
  | seq a b, s, k => a.run s fun s' => b.run s' k
  | alt a b, s, k => (a.run s k).orElse fun _ => b.run s k
  | repeated greed least most p, s, k =>
    let fuel := least + s.rest.length + 1
    match greed with
    | .greedy => repeatStep p.run true fuel least most s k
    | .lazy => repeatStep p.run false fuel least most s k
    | .possessive => (repeatStep p.run true fuel least most s some).bind k
  | group n p, s, k => p.run s fun s' => k { s' with groups := (n, s'.since s) :: s'.groups }
  | reference n ignoreCase, s, k =>
    match s.groups.lookup n with
    | some cs => (s.skip? ignoreCase cs).bind k
    | none => none
  | anchor a, s, k => if s.satisfies a then k s else none
  | ahead negated p, s, k =>
    match p.run s some with
    | some s' => if negated then none else k { s with groups := s'.groups }
    | none => if negated then k s else none
  | behind negated width p, s, k =>
    let start : Spot :=
      ⟨s.before.drop width, (s.before.take width).reverse ++ s.rest, s.groups⟩
    let found := if s.before.length < width then none else p.run start some
    match found with
    | some s' => if negated then none else k { s with groups := s'.groups }
    | none => if negated then k s else none
  | atomic p, s, k => (p.run s some).bind k
  | conditional n yes no, s, k =>
    if (s.groups.lookup n).isSome then yes.run s k else no.run s k

/-- The first match at a position or behind it. -/
def searchFrom (p : Pattern) : List Char → List Char → Option Spot
  | before, [] => p.run ⟨before, [], []⟩ some
  | before, c :: rest =>
    (p.run ⟨before, c :: rest, []⟩ some).orElse fun _ => searchFrom p (c :: before) rest

/-- Whether the text matches the pattern from its start on. -/
def matchesStart (p : Pattern) (s : String) : Bool := (p.run ⟨[], s.toList, []⟩ some).isSome

/-- Whether a part of the text matches the pattern. -/
def search (p : Pattern) (s : String) : Bool := (p.searchFrom [] s.toList).isSome

/-- The number of characters that every match has, if all have the same. `groups` tells it for the
groups that may be referred to. -/
def width? (groups : Nat → Option Nat) : Pattern → Option Nat
  | empty | anchor _ | ahead .. | behind .. => some 0
  | char _ => some 1
  | seq a b => do return (← a.width? groups) + (← b.width? groups)
  | alt a b => do
    let m ← a.width? groups
    let n ← b.width? groups
    if m == n then some m else none
  | repeated _ least most p =>
    if most == some 0 then some 0
    else do
      let n ← p.width? groups
      if n == 0 then some 0 else if most == some least then some (n * least) else none
  | group _ p | atomic p => p.width? groups
  | reference n _ => groups n
  | conditional _ yes no => do
    let m ← yes.width? groups
    let n ← no.width? groups
    if m == n then some m else none

end Pattern

end BusinessModel
