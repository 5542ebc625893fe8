import BusinessModel.Schema.Set

/-!
Findings: what is reported of the violations of a schema. Each names the keyword, the place in the
document, and what is needed to explain it.

A missing property and an undeclared one are a finding each. The schema engine reports each missing
property by itself, so only the first of these violations of one schema at one place counts, and it
stands for all.
-/

namespace BusinessModel

/-- A finding. `schema` is the violated schema, if it is a mapping. -/
structure Finding where
  keyword : String
  path : String := ""
  params : List (String × Value) := []
  data : Value := .null
  message : String := ""
  schema : Option Value := none
deriving Inhabited

namespace Finding

/-- The name of the property that a finding is about: the last segment of the path that is no
index. -/
def propertyName? (f : Finding) : Option String :=
  ((Pointer.pieces f.path).reverse.find? fun s => !s.isEmpty && !Text.isDigits s).map
    Pointer.unescape

/-- The parameter of a name. -/
def param? (f : Finding) (name : String) : Option Value := f.params.lookup name

open Schema

/-- Keywords that set a limit. -/
def limitKeywords : List String :=
  ["minimum", "maximum", "exclusiveMinimum", "exclusiveMaximum", "minLength", "maxLength",
   "minItems", "maxItems", "minProperties", "maxProperties", "multipleOf"]

/-- What explains a violation besides its message. -/
def paramsOf (keyword : String) (v : Violation) : Except Fault (List (String × Value)) :=
  match keyword with
  | "enum" => .ok [("allowedValues", .list (v.argument.members?.getD []))]
  | "const" => .ok [("allowedValue", v.argument)]
  | "pattern" => .ok [("pattern", v.argument)]
  | "type" =>
    .ok [("type", match v.argument with
      | .list names => .str (",".intercalate (names.map Value.text))
      | name => name)]
  | "format" => .ok [("format", v.argument)]
  | "oneOf" | "anyOf" => do
    return ((← Violation.best? v.context).map fun best => ("bestMatch", .str best.message)).toList
  | _ => .ok (if limitKeywords.contains keyword then [("limit", v.argument)] else [])

/-- The text of a keyword; a schema that allows nothing has none. -/
def keywordText (v : Violation) : String := v.keyword.getD "None"

/-- The violated schema, if it is a mapping. -/
def schemaOf (v : Violation) : Option Value :=
  if v.schema.value.isMap then some v.schema.value else none

/-- The properties that a mapping lacks; none if they are required other than by a list. -/
def missingIn (v : Violation) : List Value :=
  match v.subject with
  | .map entries => missingNames v.argument.items entries
  | _ => []

/-- The finding for a missing property. -/
def missing (v : Violation) (name : Value) : Finding :=
  { keyword := "required", path := Pointer.ofSegments v.path
    params := [("missingProperty", name)], data := v.subject
    message := "must have required property '" ++ name.text ++ "'", schema := schemaOf v }

/-- The findings for missing properties. -/
def ofMissing (v : Violation) : List Finding := (missingIn v).map (missing v)

/-- The properties that a schema neither declares nor matches by one of its patterns. -/
def undeclaredEntries (schema : Value) (entries : List (Value × Value)) :
    Except Fault (List (Value × Value)) := do
  let declared := ((schema.get? "properties").getD .null).entries
  let patterns ← (((schema.get? "patternProperties").getD .null).entries).mapM fun (text, _) =>
    patternOf text.text
  return entries.filter fun (k, _) =>
    (valueAt? k declared).isNone && !patterns.any fun p => p.search k.text

/-- The finding for an undeclared property. -/
def undeclared (v : Violation) (entry : Value × Value) : Finding :=
  { keyword := "additionalProperties", path := Pointer.ofSegments v.path
    params := [("additionalProperty", entry.1)], data := entry.2
    message := "must NOT have additional properties", schema := schemaOf v }

/-- The findings for undeclared properties. -/
def ofUndeclared (v : Violation) (entries : List (Value × Value)) :
    Except Fault (List Finding) := do
  return (← undeclaredEntries v.schema.value entries).map (undeclared v)

/-- The finding for any other violation. One of a schema for property names is at the property. -/
def ofOther (v : Violation) : Except Fault Finding := do
  let keyword := keywordText v
  let params ← paramsOf keyword v
  let path := Pointer.ofSegments v.path
  let ofName := v.trail.contains "propertyNames"
  return {
    keyword, data := v.subject, message := v.message, schema := schemaOf v
    path := if ofName then Pointer.join path (.key v.subject.text) else path
    params := if ofName then params ++ [("propertyName", v.subject)] else params }

/-- The findings for a violation; `seen` are the places of values and schemas whose missing
properties are reported already. -/
def ofViolation (v : Violation) (seen : List (String × Place)) :
    Except Fault (List Finding × List (String × Place)) :=
  let key := (Pointer.ofSegments v.path, v.schema.place)
  match v.keyword, v.subject with
  | some "required", _ =>
    if seen.contains key then .ok ([], seen) else .ok (ofMissing v, key :: seen)
  | some "additionalProperties", .map entries => do return (← ofUndeclared v entries, seen)
  | _, _ => do return ([← ofOther v], seen)

/-- Whether the violated schema has names for all its keywords. -/
def isNamed (f : Finding) : Bool :=
  (f.schema.getD .null).entries.all fun (k, _) => k.str?.isSome

/-- The findings for violations, in their order. -/
def ofViolationsFrom : List Violation → List (String × Place) → Except Fault (List Finding)
  | [], _ => .ok []
  | v :: rest, seen => do
    let (found, seen) ← ofViolation v seen
    if !found.all isNamed then throw .unnamedKeyword
    return found ++ (← ofViolationsFrom rest seen)

/-- The order of findings: by place, then by keyword. -/
def precedes (a b : Finding) : Bool :=
  a.path < b.path || (a.path == b.path && a.keyword ≤ b.keyword)

/-- The findings for violations, sorted. -/
def ofViolations (vs : List Violation) : Except Fault (List Finding) :=
  return (← ofViolationsFrom vs []).mergeSort precedes

end Finding

/-- Why content cannot be checked. -/
inductive CheckError where
  | unknownType (e : UnknownType)
  | fault (f : Schema.Fault)
deriving Inhabited

/-- The findings for content that is to meet the schema of a document type. -/
def SchemaSet.findings (s : SchemaSet) (type : Option String) (content : Value) :
    Except CheckError (List Finding) := do
  let schema ← (s.schema? type).mapError .unknownType
  let located : Schema.Located := ⟨schema, s.placeOf (type.getD "")⟩
  let found := do Finding.ofViolations (← Schema.violations s.registry located content)
  found.mapError .fault

end BusinessModel
