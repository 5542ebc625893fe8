import BusinessModel.Schema.Address
import BusinessModel.Document.Pointer
import BusinessModel.Number.Reading
import BusinessModel.Value

/-!
A registry of schemas by their addresses, and the schemas that references lead to.

A schema knows its place: the registered schema that it is part of, and the steps that lead to it
from there. Two schemas are the same one exactly if they have the same place.
-/

namespace BusinessModel.Schema

/-- The place of a schema: the number of the registered schema that it is part of, and the steps to
it, the last one first. A step is the position of an entry or an item. -/
structure Place where
  root : Nat
  steps : List Nat := []
deriving DecidableEq, Repr, Inhabited

/-- A schema, or any part of one, with its place. -/
structure Located where
  value : Value
  place : Place
deriving Inhabited

namespace Located

/-- The part at a position. -/
def part (s : Located) (position : Nat) (value : Value) : Located :=
  ⟨value, { s.place with steps := position :: s.place.steps }⟩

/-- The items of a list, with their places. -/
def items (s : Located) : List Located :=
  s.value.items.zipIdx.map fun (v, i) => s.part i v

/-- The entries of a mapping, with the places of their values. -/
def entries (s : Located) : List (Value × Located) :=
  s.value.entries.zipIdx.map fun ((k, v), i) => (k, s.part i v)

/-- The part at a key. -/
def get? (s : Located) (key : String) : Option Located :=
  (s.entries.find? fun (k, _) => k.str? == some key).map (·.2)

end Located

/-- Why a schema cannot be applied. -/
inductive Fault where
  /-- No schema has the address. -/
  | unresolvable (reference : String)
  /-- A pointer leaves the schema. -/
  | pointsNowhere (pointer : String)
  | noSuchAnchor (name : String)
  | invalidAnchor (name : String)
  /-- A step into a list is no number. -/
  | badIndex (report : String)
  /-- A value without parts where parts are asked for. -/
  | noParts
  /-- Something other than a schema where a schema is needed. -/
  | noSchema
  | badPattern (pattern : String)
  | unknownType (name : String)
  /-- References lead on and on. -/
  | endless
  | quotientTooLarge
  | quotientUndefined
  /-- A violated schema has keywords that are no texts. -/
  | unnamedKeyword
deriving DecidableEq, Repr, Inhabited

/-- What a keyword holds: one schema, a list of schemas, or schemas by name. -/
inductive Slot where
  | schema
  | list
  | table
deriving DecidableEq, Repr

/-- What the keywords hold that hold schemas. -/
def Slot.ofKeyword? (keyword : String) : Option Slot :=
  if ["additionalProperties", "contains", "contentSchema", "else", "if", "items", "not",
      "propertyNames", "then", "unevaluatedItems", "unevaluatedProperties"].contains keyword then
    some .schema
  else if ["allOf", "anyOf", "oneOf", "prefixItems"].contains keyword then some .list
  else if ["$defs", "definitions", "dependentSchemas", "patternProperties",
      "properties"].contains keyword then some .table
  else none

/-- A name for a schema. A dynamic one gives way to the same name in a schema on the way to it. -/
structure Anchor where
  address : String
  name : String
  dynamic : Bool
  target : Located
deriving Inhabited

/-- The address that a schema gives itself. -/
def idOf? : Value → Except Fault (Option String)
  | .bool _ => .ok none
  | .map entries =>
    match Value.lookup "$id" entries with
    | none | some .null => .ok none
    | some (.str id) => .ok (some (Address.dropHashes id))
    | some _ => .error .noSchema
  | _ => .error .noSchema

/-- What a walk through a schema finds: schemas with an address of their own, and names. -/
structure Survey where
  resources : List (String × Located) := []
  anchors : List Anchor := []
deriving Inhabited

namespace Survey

/-- Both findings; the second ones come first. -/
def append (a b : Survey) : Survey := ⟨b.resources ++ a.resources, b.anchors ++ a.anchors⟩

/-- The address of a schema that stands in one with the address `base`. -/
def addressIn (base : String) (v : Value) : String :=
  match idOf? v with
  | .ok (some id) => Address.join base id
  | _ => base

/-- What a schema says about itself. -/
def ofSchema (base : String) (s : Located) : Survey :=
  let address := addressIn base s.value
  let named (key : String) (dynamic : Bool) : List Anchor :=
    match s.value.get? key with
    | some (.str name) => [⟨address, name, dynamic, s⟩]
    | _ => []
  { resources := match idOf? s.value with
      | .ok (some _) => [(address, s)]
      | _ => []
    anchors := named "$dynamicAnchor" true ++ named "$anchor" false }

mutual

/-- What a schema and the schemas in it say about themselves. -/
def ofValue (base : String) (place : Place) (slot : Slot) : Value → Survey
  | .scalar _ => {}
  | .list items =>
    match slot with
    | .list => ofItems base place 0 items
    | _ => {}
  | .map entries =>
    let here : Survey :=
      match slot with
      | .schema => ofSchema base ⟨.map entries, place⟩
      | _ => {}
    let base := match slot with
      | .schema => addressIn base (.map entries)
      | _ => base
    here.append (ofEntries base place 0 slot entries)

/-- What the schemas in a list say about themselves. -/
def ofItems (base : String) (place : Place) (index : Nat) : List Value → Survey
  | [] => {}
  | v :: rest =>
    let here := ofValue base { place with steps := index :: place.steps } .schema v
    here.append (ofItems base place (index + 1) rest)

/-- What the schemas in a mapping say about themselves. -/
def ofEntries (base : String) (place : Place) (index : Nat) (slot : Slot) :
    List (Value × Value) → Survey
  | [] => {}
  | (k, v) :: rest =>
    let inner : Option Slot :=
      match slot with
      | .table => some .schema
      | .schema => k.str?.bind Slot.ofKeyword?
      | .list => none
    let here : Survey :=
      match inner with
      | some slot => ofValue base { place with steps := index :: place.steps } slot v
      | none => {}
    here.append (ofEntries base place (index + 1) slot rest)

end

end Survey

/-- Schemas by their addresses, and what a survey of them has found. -/
structure Registry where
  resources : List (String × Located) := []
  survey : Survey := {}
deriving Inhabited

namespace Registry

/-- The entries that count: of those with one address the last one. -/
def lastOfEach {α : Type} : List (String × α) → List (String × α)
  | [] => []
  | e :: rest => if rest.any (·.1 == e.1) then lastOfEach rest else e :: lastOfEach rest

/-- The registry of schemas, each with its address; of two with one address the later counts, and
only that is surveyed. -/
def ofSchemas (schemas : List (String × Value)) : Registry :=
  let located := schemas.zipIdx.map fun ((address, v), i) =>
    (Address.dropHashes address, (⟨v, ⟨i, []⟩⟩ : Located))
  { resources := located.reverse
    survey := (lastOfEach located).foldl (fun acc (address, s) =>
      acc.append (Survey.ofValue address s.place .schema s.value)) {} }

/-- The schema with an address. -/
def find? (r : Registry) (address : String) : Option Located :=
  (r.resources.lookup address).orElse fun _ => r.survey.resources.lookup address

/-- The anchor of a name in a schema. -/
def anchor? (r : Registry) (address name : String) : Except Fault Anchor :=
  let named (address : String) := r.survey.anchors.find? fun a =>
    a.address == address && a.name == name
  match named address with
  | some a => .ok a
  | none =>
    match r.find? address with
    | none => .error (.unresolvable address)
    | some s =>
      match (idOf? s.value).toOption.join.bind named with
      | some a => .ok a
      | none =>
        .error (if name.toList.contains '/' then .invalidAnchor name else .noSuchAnchor name)

end Registry

/-- From where references are followed: the address that relative ones start from, and those before
it on the way, the latest first. -/
structure Scope where
  base : String := ""
  previous : List String := []
deriving DecidableEq, Repr, Inhabited

namespace Scope

/-- The scope in another schema. -/
def moveTo (s : Scope) (address : String) : Scope :=
  let pushed := !s.base.isEmpty && (s.previous.isEmpty || address != s.base)
  ⟨address, if pushed then s.base :: s.previous else s.previous⟩

/-- The scope inside a part that may have an address of its own. -/
def enter (s : Scope) (v : Value) : Except Fault Scope := do
  match ← idOf? v with
  | some id => return { s with base := Address.join s.base id }
  | none => return s

end Scope

/-- Whether the steps from a schema lead to another schema along keywords. -/
def leadsToSchema : List String → Bool
  | [] => true
  | step :: rest =>
    match Slot.ofKeyword? step with
    | some .schema => leadsToSchema rest
    | some _ =>
      match rest with
      | _ :: rest => leadsToSchema rest
      | [] => false
    | none => false

/-- The part that a step leads to; a negative number counts from the end of a list. -/
def stepInto (pointer step : String) (s : Located) : Except Fault (String × Located) :=
  match s.value with
  | .list vs =>
    match integerOfText step with
    | .error report => .error (.badIndex report)
    | .ok n =>
      let i := if n < 0 then n + vs.length else n
      match if i < 0 then none else vs[i.toNat]? with
      | some v => .ok (Text.natText i.toNat, s.part i.toNat v)
      | none => .error (.pointsNowhere pointer)
  | .str text =>
    match integerOfText step with
    | .error report => .error (.badIndex report)
    | .ok n =>
      let i := if n < 0 then n + text.length else n
      match if i < 0 then none else text.toList[i.toNat]? with
      | some c => .ok (Text.natText i.toNat, s.part i.toNat (.str (String.singleton c)))
      | none => .error (.pointsNowhere pointer)
  | .map _ =>
    let key := Pointer.unescape step
    match s.get? key with
    | some inner => .ok (key, inner)
    | none => .error (.pointsNowhere pointer)
  | _ => .error .noParts

/-- Follows the steps of a pointer. `passed` are the steps since the last schema with an address of
its own. -/
def followSteps (pointer : String) :
    List String → List String → Located → Scope → Except Fault (Located × Scope)
  | [], _, s, scope => .ok (s, scope)
  | step :: rest, passed, s, scope => do
    let (key, inner) ← stepInto pointer step s
    let passed := passed ++ [key]
    let entered ← if leadsToSchema passed then scope.enter inner.value else .ok scope
    followSteps pointer rest (if entered == scope then passed else []) inner entered

/-- The anchor that counts for a scope: of a dynamic one the outermost on the way. -/
def dynamicTarget (r : Registry) (scope : Scope) (a : Anchor) : Except Fault Located :=
  scope.previous.foldlM (fun last address =>
    match r.anchor? address a.name with
    | .ok b => .ok (if b.dynamic then b.target else last)
    | .error (.noSuchAnchor _) => .ok last
    | .error fault => .error fault) a.target

/-- The address of the schema that a reference is to, and what it means in there. -/
def Scope.resolve (s : Scope) (reference : String) : String × String :=
  match reference.toList with
  | '#' :: rest => (s.base, String.ofList rest)
  | _ => Address.splitFragment (Address.join s.base reference)

/-- The schema that a reference leads to, and the scope there. -/
def follow (r : Registry) (scope : Scope) (reference : String) :
    Except Fault (Located × Scope) := do
  let (address, fragment) := scope.resolve reference
  match r.find? address with
  | none => throw (.unresolvable reference)
  | some root =>
    let inner := scope.moveTo address
    if fragment.toList.head? == some '/' then
      let steps := Pointer.pieces (Address.unquote (String.ofList (fragment.toList.drop 1)))
      followSteps fragment steps [] root inner
    else if fragment.isEmpty then return (root, inner)
    else
      let a ← r.anchor? address fragment
      if a.dynamic then
        let target ← dynamicTarget r inner a
        return (target, ← inner.enter target.value)
      else return (a.target, inner)

end BusinessModel.Schema
