import BusinessModel.Schema.Registry

/-!
Violations of schemas, the types of values, and which of several violations tells the most.
-/

namespace BusinessModel

/-- The type of a value in the words of schemas. -/
inductive ValueType where
  | null
  | boolean
  | integer
  | number
  | string
  | array
  | object
deriving DecidableEq, Repr

namespace ValueType

/-- The name of a type. -/
def text : ValueType → String
  | null => "null"
  | boolean => "boolean"
  | integer => "integer"
  | number => "number"
  | string => "string"
  | array => "array"
  | object => "object"

/-- The type of a name. -/
def ofText? (s : String) : Option ValueType :=
  [null, boolean, integer, number, string, array, object].find? (·.text == s)

/-- Whether a value belongs to the type. A number without a fractional part is an integer, and a
truth value is no number. -/
def holds : ValueType → Value → Bool
  | null, .null => true
  | boolean, .bool _ => true
  | integer, .int _ => true
  | integer, .float x => x.isWhole
  | number, .int _ | number, .float _ => true
  | string, .str _ => true
  | array, .list _ => true
  | object, .map _ => true
  | _, _ => false

end ValueType

namespace Schema

/-- A violation of a schema by a value. `keyword` is absent if the schema is `false`, which allows
nothing. `path` leads to the value and `trail` along the keywords to the one that is violated, both
from where the check began. -/
structure Violation where
  keyword : Option String
  argument : Value
  subject : Value
  schema : Located
  message : String
  path : List Segment := []
  trail : List String := []
  context : List Violation := []
deriving Inhabited

namespace Violation

/-- The violation as seen from outside, where a part of the value and of the schema was checked. -/
def within (v : Violation) (path : Option Segment) (trail : Option String) : Violation :=
  { v with path := path.toList ++ v.path, trail := trail.toList ++ v.trail }

/-- Whether the value has the type that the violated schema asks for. -/
def fitsType (v : Violation) : Except Fault Bool :=
  let fits (name : String) : Except Fault Bool :=
    match ValueType.ofText? name with
    | some t => .ok (t.holds v.subject)
    | none => .error (.unknownType name)
  match v.schema.value.get? "type" with
  | some (.str name) => fits name
  | some (.list names) => names.anyM fun n => fits n.text
  | _ => .ok false

/-- The order of steps: indices by their numbers, keys by their characters. -/
def compareSegments : Segment → Segment → Ordering
  | .index a, .index b => compare a b
  | .key a, .key b => compare a b
  | .index _, .key _ => .lt
  | .key _, .index _ => .gt

/-- The order of paths, step by step; a path comes behind its beginnings. -/
def comparePaths : List Segment → List Segment → Ordering
  | [], [] => .eq
  | [], _ :: _ => .lt
  | _ :: _, [] => .gt
  | a :: as, b :: bs => (compareSegments a b).then (comparePaths as bs)

/-- How much a violation tells. -/
structure Relevance where
  path : List Segment
  specific : Bool
  wrongType : Bool

/-- The relevance of a violation. -/
def relevance (v : Violation) : Except Fault Relevance :=
  return ⟨v.path, v.keyword != some "anyOf" && v.keyword != some "oneOf", !(← v.fitsType)⟩

/-- The order of relevance: the shallower path tells more, then the later one, then a keyword other
than a choice between schemas, then a value of the wrong type. -/
def Relevance.compare (a b : Relevance) : Ordering :=
  (Ord.compare b.path.length a.path.length).then <| (comparePaths a.path b.path).then <|
    (Ord.compare a.specific.toNat b.specific.toNat).then <|
      Ord.compare a.wrongType.toNat b.wrongType.toNat

/-- The first of the violations with the greatest relevance. -/
def mostRelevant (vs : List (Violation × Relevance)) : Option (Violation × Relevance) :=
  match vs with
  | [] => none
  | v :: rest => some (rest.foldl (fun best w => if best.2.compare w.2 == .lt then w else best) v)

/-- The first of the violations with the least relevance, unless a second one has the same. -/
def leastRelevant? (vs : List (Violation × Relevance)) : Option Violation :=
  match vs with
  | [] => none
  | v :: rest =>
    let least := rest.foldl (fun best w => if w.2.compare best.2 == .lt then w else best) v
    let equals := vs.filter fun w => w.2.compare least.2 == .eq
    if equals.length > 1 then none else some least.1

/-- Violations with their relevance. -/
def rated (vs : List Violation) : Except Fault (List (Violation × Relevance)) :=
  vs.mapM fun v => return (v, ← v.relevance)

/-- Descends from a violation into the choice that caused it, as long as one of the violations there
stands out. -/
def descendTo : Nat → Violation → Except Fault Violation
  | 0, v => .ok v
  | fuel + 1, v =>
    if v.context.isEmpty then .ok v
    else do
      match leastRelevant? (← rated v.context) with
      | some inner => descendTo fuel inner
      | none => return v

mutual

/-- How deep choices are nested in a violation. -/
def depth : Violation → Nat
  | ⟨_, _, _, _, _, _, _, context⟩ => depthOf context + 1

/-- How deep choices are nested in violations. -/
def depthOf : List Violation → Nat
  | [] => 0
  | v :: rest => max v.depth (depthOf rest)

end

/-- The violation that tells the most about what is wrong. -/
def best? (vs : List Violation) : Except Fault (Option Violation) := do
  match mostRelevant (← rated vs) with
  | some (v, _) => return some (← descendTo v.depth v)
  | none => return none

end Violation

end Schema

end BusinessModel
