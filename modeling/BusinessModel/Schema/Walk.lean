import BusinessModel.Schema.Hints

/-!
A walk through schemas along their references. It notes which property names lead to schemas of
identifiers, and which lead to choices between words.

A schema is visited once for each property name that it is reached by, so the walk ends however the
schemas refer to each other.
-/

namespace BusinessModel.Schema

/-- A schema with the scope of its references, and the property name that it was reached by. -/
structure Visit where
  schema : Located
  scope : Scope
  property : Option String
deriving Inhabited

/-- What is left to do on a walk. -/
inductive Task where
  | visit (v : Visit)
  /-- Visits the schema that a reference leads to. -/
  | follow (v : Visit) (reference : String)
  /-- Notes what a schema says about a property. -/
  | note (schema : Located) (property : String)
deriving Inhabited

/-- A property that refers to elements: the letters of the identifiers that it accepts. A star
stands for those of every kind. -/
structure FieldNote where
  property : String
  letters : String
deriving DecidableEq, Repr

/-- What a walk has noted so far, the latest first. -/
structure Notes where
  seen : List (Place × Option String) := []
  fields : List FieldNote := []
  choices : List (Located × String) := []
deriving Inhabited

namespace Walk

/-- Letters that stand for every kind of element. -/
def anyKind : String := "*"

/-- The schemas among the values of a keyword that holds schemas by name, with their names. -/
def named (schema : Located) (keyword : String) : Except Malformed (List (Value × Located)) :=
  match schema.get? keyword with
  | none => .ok []
  | some inner =>
    match inner.value with
    | .map _ => .ok inner.entries
    | v => if v.isSet then .error .noEntries else .ok []

/-- The schemas among the items of a keyword that holds a list of schemas. -/
def listed (schema : Located) (keyword : String) : Except Malformed (List Located) :=
  match schema.get? keyword with
  | none => .ok []
  | some inner =>
    match inner.value with
    | .list _ => .ok inner.items
    | .str _ | .map _ => .ok []
    | v => if v.isSet then .error .wrongType else .ok []

/-- The schema that a keyword holds, if it holds a mapping. -/
def held (schema : Located) (keyword : String) : List Located :=
  match schema.get? keyword with
  | some inner => if inner.value.isMap then [inner] else []
  | none => []

/-- The property names, other than that of an identifier itself, for which notes are taken. -/
def isNoted (property : Option String) : Option String :=
  property.filter (· != "id")

/-- What a visit begins with: the reference of the schema, and a note on the schema itself. -/
def firstTasks (v : Visit) : List Task :=
  let reference := match v.schema.value.get? "$ref" with
    | some (.str reference) => [Task.follow v reference]
    | _ => []
  reference ++ (isNoted v.property).toList.map (Task.note v.schema)

/-- The visits of the schemas inside a schema. Their property name changes with `properties` and is
forgotten where the names are free. -/
def innerTasks (v : Visit) : Except Malformed (List Task) := do
  let inside (property : Option String) (schema : Located) : Task :=
    .visit { v with schema, property }
  let properties ← named v.schema "properties"
  let patterns ← named v.schema "patternProperties"
  let ways ← ["oneOf", "anyOf", "allOf"].mapM (listed v.schema)
  return properties.map (fun (name, s) => inside (some name.text) s) ++
    patterns.map (fun (_, s) => inside none s) ++
    (held v.schema "items").map (inside v.property) ++
    (held v.schema "additionalProperties").map (inside none) ++
    ways.flatten.map (inside v.property)

/-- Notes what a schema says about a property. -/
def noteOn (schema : Located) (property : String) (notes : Notes) : Except Malformed Notes := do
  let about ← Block.entries (schema.value.get? "x-ubml")
  let letters :=
    if ((Value.lookup "anyReference" about).map Value.isSet).getD false then some anyKind
    else (Value.lookup "prefix" about).map Value.text
  let notes := match letters with
    | some letters => { notes with fields := ⟨property, letters⟩ :: notes.fields }
    | none => notes
  if schema.value.has "enum" then
    return { notes with choices := (schema, property) :: notes.choices }
  return notes

/-- Does the tasks and those that follow from them. -/
def run (registry : Registry) : Nat → List Task → Notes → Except Malformed Notes
  | 0, _, notes => .ok notes
  | _, [], notes => .ok notes
  | fuel + 1, task :: rest, notes =>
    match task with
    | .note schema property => do run registry fuel rest (← noteOn schema property notes)
    | .follow v reference =>
      match Schema.follow registry v.scope reference with
      | .ok (schema, scope) =>
        run registry fuel (.visit ⟨schema, scope, v.property⟩ :: rest) notes
      | .error fault => .error (.reference fault)
    | .visit v =>
      let key := (v.schema.place, v.property)
      if !v.schema.value.isMap || notes.seen.contains key then run registry fuel rest notes
      else do
        let inner ← innerTasks v
        run registry fuel (firstTasks v ++ inner ++ rest) { notes with seen := key :: notes.seen }

mutual

/-- The number of values in a value. -/
def size : Value → Nat
  | .scalar _ => 1
  | .list items => sizeOfItems items + 1
  | .map entries => sizeOfEntries entries + 1

/-- The number of values in items. -/
def sizeOfItems : List Value → Nat
  | [] => 0
  | v :: rest => size v + sizeOfItems rest

/-- The number of values in entries, the keys not counted. -/
def sizeOfEntries : List (Value × Value) → Nat
  | [] => 0
  | (_, v) :: rest => size v + sizeOfEntries rest

end

/-- More steps than a walk through the registered schemas takes: each schema is visited at most once
for each name. There are fewer than five names for each part of the schemas, and for one name the
visits lead to fewer than five tasks for each part. -/
def bound (registry : Registry) : Nat :=
  let n := registry.resources.foldl (fun n r => n + size r.2.value) 2
  (5 * n) * (5 * n)

/-- Walks through the schemas with the given addresses. -/
def ofAddresses (registry : Registry) (addresses : List String) : Except Malformed Notes :=
  let start (address : String) : Task := .follow ⟨⟨.null, ⟨0, []⟩⟩, {}, none⟩ address
  run registry (bound registry) (addresses.map start) {}

end Walk

namespace Notes

/-- The members of a list, each once, where it comes first. -/
def distinct (xs : List String) : List String :=
  (xs.foldl (fun seen x => if seen.contains x then seen else x :: seen) []).reverse

/-- The property names that refer to elements, sorted, with the letters of the identifiers that each
accepts. No letters stand for all of them. -/
def referenceFields (n : Notes) : List (String × List String) :=
  let names := (distinct (n.fields.map (·.property))).mergeSort fun a b => a ≤ b
  names.map fun name =>
    let letters := (n.fields.filter (·.property == name)).map (·.letters)
    (name, if letters.contains Walk.anyKind then []
      else (distinct letters).mergeSort fun a b => a ≤ b)

/-- The schemas that are choices between words, in the order of discovery, each with the names of
the properties that lead to it. -/
def choicesByPlace (n : Notes) : List (Located × List String) :=
  let found := n.choices.reverse
  let schemas := found.foldl (fun (seen : List Located) (s, _) =>
    if seen.any (·.place == s.place) then seen else seen ++ [s]) []
  schemas.map fun s =>
    (s, distinct ((found.filter fun c => c.1.place == s.place).map (·.2)))

/-- The advice on wrong words. -/
def enumHints (n : Notes) : Except Malformed (List EnumHint) :=
  n.choicesByPlace.mapM fun (s, properties) => Block.enumHint s.value properties

end Notes

end BusinessModel.Schema
