import BusinessModel.Yaml.Tag

/-!
The nodes of a document: scalars and collections with their types, put together from events.

An anchored node has a number, and an alias holds the number of the node it stands for. The nodes of
a document thus form a tree even where an alias lies inside the node it names.
-/

namespace BusinessModel.Yaml

/-- A node and the place where it starts. An alias has the place of the node it stands for. -/
inductive Node where
  | scalar (anchor : Option Nat) (tag : Tag) (text : String) (place : Mark)
  | sequence (anchor : Option Nat) (tag : Tag) (place : Mark) (items : List Node)
  | mapping (anchor : Option Nat) (tag : Tag) (place : Mark) (entries : List (Node × Node))
  | aliasOf (target : Nat) (place : Mark)
deriving Repr, Inhabited

namespace Node

/-- Where a node starts. -/
def place : Node → Mark
  | scalar _ _ _ m | sequence _ _ m _ | mapping _ _ m _ | aliasOf _ m => m

/-- The number of an anchored node. -/
def anchor : Node → Option Nat
  | scalar a .. | sequence a .. | mapping a .. => a
  | aliasOf .. => none

/-- The kind of a node in reports. -/
def kind : Node → String
  | scalar .. => "scalar"
  | sequence .. => "sequence"
  | mapping .. => "mapping"
  | aliasOf .. => "alias"

end Node

/-- How deep collections may lie inside one another before a text is refused unread. -/
def maxNesting : Nat := 250

/-- The state of putting nodes together: the events that are left, the error behind them, the
edition, and the anchors seen so far with the number and place of their latest nodes. -/
structure Composer where
  events : List Event
  failure : Option Error
  edition : Edition
  anchors : List (String × Nat × Mark) := []
  anchored : Nat := 0
deriving Inhabited

/-- A step of putting nodes together. -/
abbrev Composing := StateT Composer (Except Error)

namespace Composing

/-- The next event. -/
def peek : Composing Event := do
  let s ← get
  match s.events, s.failure with
  | e :: _, _ => return e
  | [], some e => throw e
  | [], none => return .streamEnd

/-- Past the next event. -/
def drop : Composing Unit := modify fun s => { s with events := s.events.tail }

/-- Gives a number to a node with an anchor. -/
def register (name : Option String) (place : Mark) : Composing (Option Nat) := do
  match name with
  | none => return none
  | some name =>
    let s ← get
    set { s with anchors := (name, s.anchored, place) :: s.anchors, anchored := s.anchored + 1 }
    return some s.anchored

/-- The type of a node: that of its tag, or `implied` if it has none or the tag is a lone mark. -/
def tagOf (tag : Option String) (implied : Tag) : Tag :=
  match tag with
  | some name => if name == "!" then implied else .ofName name
  | none => implied

/-- The type of a scalar. -/
def scalarTag (tag : Option String) (implicit : Bool) (text : String) : Composing Tag := do
  if tag.isSome && tag != some "!" then return tagOf tag .str
  if !implicit then return .str
  let edition := (← get).edition
  if edition == .unknown then throw .unknownEdition
  return .ofPlain edition text

mutual

/-- The node that the events begin with, `depth` collections down. -/
def node : Nat → Nat → Composing Node
  | 0, _ => throw .nesting
  | fuel + 1, depth => do
    if depth > maxNesting then throw .nesting
    match ← peek with
    | .aliasOf name place =>
      drop
      match (← get).anchors.lookup name with
      | some (n, target) => return .aliasOf n target
      | none => throw (.at none (.undefinedAlias name) place)
    | .scalar anchor tag implicit text place =>
      drop
      let tag ← scalarTag tag implicit text
      return .scalar (← register anchor place) tag text place
    | .sequenceStart anchor tag place =>
      drop
      let n ← register anchor place
      return .sequence n (tagOf tag .sequence) place (← items fuel (depth + 1) [])
    | .mappingStart anchor tag place =>
      drop
      let n ← register anchor place
      return .mapping n (tagOf tag .mapping) place (← entries fuel (depth + 1) [])
    | _ => return .scalar none .null "" ⟨0, 0⟩

/-- The items of a sequence up to its end; `seen` are those already read, last first. -/
def items : Nat → Nat → List Node → Composing (List Node)
  | 0, _, _ => throw .nesting
  | fuel + 1, depth, seen => do
    if (← peek) == .sequenceEnd then
      drop
      return seen.reverse
    let n ← node fuel depth
    items fuel depth (n :: seen)

/-- The entries of a mapping up to its end. -/
def entries : Nat → Nat → List (Node × Node) → Composing (List (Node × Node))
  | 0, _, _ => throw .nesting
  | fuel + 1, depth, seen => do
    if (← peek) == .mappingEnd then
      drop
      return seen.reverse
    let k ← node fuel depth
    let v ← node fuel depth
    entries fuel depth ((k, v) :: seen)

end

/-- The only document of a stream: its root node, or nothing if the stream holds no document. -/
def document : Composing (Option Node) := do
  let _ ← peek
  drop
  let root ←
    match ← peek with
    | .streamEnd => pure none
    | _ =>
      drop
      let n ← node (2 * (← get).events.length + 4) 0
      let _ ← peek
      drop
      pure (some n)
  match ← peek, root with
  | .streamEnd, _ => return root
  | e, root =>
    let place := match e with
      | .documentStart place => place
      | _ => ⟨0, 0⟩
    let start := (root.map Node.place).getD ⟨0, 0⟩
    throw (.at (some (.singleDocument, start)) .anotherDocument place)

end Composing

/-- The root node of a text's only document. -/
def Node.ofEvents? (s : EventStream) : Except Error (Option Node) :=
  (Composing.document.run' ⟨s.events, s.failure, .ofVersion s.version, [], 0⟩)

mutual

/-- The anchored nodes inside a node, itself included, with their numbers. -/
def Node.anchored : Node → List (Nat × Node)
  | .scalar (some n) tag text place => [(n, .scalar (some n) tag text place)]
  | .scalar none .. => []
  | .sequence a tag place xs =>
    (a.map fun n => (n, Node.sequence a tag place xs)).toList ++ anchoredItems xs
  | .mapping a tag place xs =>
    (a.map fun n => (n, Node.mapping a tag place xs)).toList ++ anchoredEntries xs
  | .aliasOf .. => []

/-- The anchored nodes among the items of a sequence. -/
def Node.anchoredItems : List Node → List (Nat × Node)
  | [] => []
  | x :: xs => x.anchored ++ anchoredItems xs

/-- The anchored nodes among the entries of a mapping. -/
def Node.anchoredEntries : List (Node × Node) → List (Nat × Node)
  | [] => []
  | (k, v) :: xs => k.anchored ++ v.anchored ++ anchoredEntries xs

end

end BusinessModel.Yaml
