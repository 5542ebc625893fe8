import BusinessModel.Schema.Check

/-!
The schema of schemas: what each keyword has to look like. It is divided into vocabularies, each of
which describes some of the keywords, and a schema has to meet all of them.
-/

namespace BusinessModel.Schema.Metaschema

/-- What the addresses of the dialect and its vocabularies begin with. -/
def baseAddress : String := "https://json-schema.org/draft/2020-12/"

/-- The address of the dialect. -/
def dialect : String := baseAddress ++ "schema"

/-- The address of a vocabulary. -/
def vocabularyAddress (name : String) : String := baseAddress ++ "meta/" ++ name

/-- A reference to another part. -/
def reference (target : String) : Value := .object [("$ref", .str target)]

/-- Any schema. -/
def anySchema : Value := .object [("$dynamicRef", .str "#meta")]

/-- Values of a type, with further keywords. -/
def ofType (name : String) (keywords : List (String × Value)) : Value :=
  .object (("type", .str name) :: keywords)

/-- Schemas by name, with further keywords. -/
def schemaTable (keywords : List (String × Value)) : Value :=
  ofType "object" (("additionalProperties", anySchema) :: keywords)

/-- A vocabulary: its properties and definitions. -/
def vocabulary (name title : String) (properties definitions : List (String × Value)) :
    String × Value :=
  (vocabularyAddress name, .object (
    [("$schema", .str dialect),
     ("$id", .str (vocabularyAddress name)),
     ("$dynamicAnchor", .str "meta"),
     ("title", .str title),
     ("type", .texts ["object", "boolean"]),
     ("properties", .object properties)] ++
    if definitions.isEmpty then [] else [("$defs", .object definitions)]))

/-- Addresses, references and definitions. -/
def core : String × Value :=
  vocabulary "core" "Core vocabulary meta-schema"
    [("$id", .object
       [("$ref", .str "#/$defs/uriReferenceString"), ("pattern", .str "^[^#]*#?$")]),
     ("$schema", reference "#/$defs/uriString"),
     ("$ref", reference "#/$defs/uriReferenceString"),
     ("$anchor", reference "#/$defs/anchorString"),
     ("$dynamicRef", reference "#/$defs/uriReferenceString"),
     ("$dynamicAnchor", reference "#/$defs/anchorString"),
     ("$vocabulary", ofType "object"
       [("propertyNames", reference "#/$defs/uriString"),
        ("additionalProperties", ofType "boolean" [])]),
     ("$comment", ofType "string" []),
     ("$defs", schemaTable [])]
    [("anchorString", ofType "string" [("pattern", .str "^[A-Za-z_][-A-Za-z0-9._]*$")]),
     ("uriString", ofType "string" [("format", .str "uri")]),
     ("uriReferenceString", ofType "string" [("format", .str "uri-reference")])]

/-- Keywords that apply schemas. -/
def applicator : String × Value :=
  vocabulary "applicator" "Applicator vocabulary meta-schema"
    [("prefixItems", reference "#/$defs/schemaArray"),
     ("items", anySchema),
     ("contains", anySchema),
     ("additionalProperties", anySchema),
     ("properties", schemaTable []),
     ("patternProperties", schemaTable
       [("propertyNames", .object [("format", .str "regex")])]),
     ("dependentSchemas", schemaTable []),
     ("propertyNames", anySchema),
     ("if", anySchema),
     ("then", anySchema),
     ("else", anySchema),
     ("allOf", reference "#/$defs/schemaArray"),
     ("anyOf", reference "#/$defs/schemaArray"),
     ("oneOf", reference "#/$defs/schemaArray"),
     ("not", anySchema)]
    [("schemaArray", ofType "array" [("minItems", .int 1), ("items", anySchema)])]

/-- Keywords about what other keywords have not taken care of. -/
def unevaluated : String × Value :=
  vocabulary "unevaluated" "Unevaluated applicator vocabulary meta-schema"
    [("unevaluatedItems", anySchema), ("unevaluatedProperties", anySchema)] []

/-- Keywords that look at values. -/
def validation : String × Value :=
  vocabulary "validation" "Validation vocabulary meta-schema"
    [("type", .object [("anyOf", .list
       [reference "#/$defs/simpleTypes",
        ofType "array"
          [("items", reference "#/$defs/simpleTypes"), ("minItems", .int 1),
           ("uniqueItems", .bool true)]])]),
     ("const", .bool true),
     ("enum", ofType "array" [("items", .bool true)]),
     ("multipleOf", ofType "number" [("exclusiveMinimum", .int 0)]),
     ("maximum", ofType "number" []),
     ("exclusiveMaximum", ofType "number" []),
     ("minimum", ofType "number" []),
     ("exclusiveMinimum", ofType "number" []),
     ("maxLength", reference "#/$defs/nonNegativeInteger"),
     ("minLength", reference "#/$defs/nonNegativeIntegerDefault0"),
     ("pattern", ofType "string" [("format", .str "regex")]),
     ("maxItems", reference "#/$defs/nonNegativeInteger"),
     ("minItems", reference "#/$defs/nonNegativeIntegerDefault0"),
     ("uniqueItems", ofType "boolean" []),
     ("maxContains", reference "#/$defs/nonNegativeInteger"),
     ("minContains", reference "#/$defs/nonNegativeInteger"),
     ("maxProperties", reference "#/$defs/nonNegativeInteger"),
     ("minProperties", reference "#/$defs/nonNegativeIntegerDefault0"),
     ("required", reference "#/$defs/stringArray"),
     ("dependentRequired", ofType "object"
       [("additionalProperties", reference "#/$defs/stringArray")])]
    [("nonNegativeInteger", ofType "integer" [("minimum", .int 0)]),
     ("nonNegativeIntegerDefault0", reference "#/$defs/nonNegativeInteger"),
     ("simpleTypes", .object
       [("enum", .texts
         ["array", "boolean", "integer", "null", "number", "object", "string"])]),
     ("stringArray", ofType "array" [("items", ofType "string" []), ("uniqueItems", .bool true)])]

/-- Keywords for people and tools. -/
def metaData : String × Value :=
  vocabulary "meta-data" "Meta-data vocabulary meta-schema"
    [("title", ofType "string" []),
     ("description", ofType "string" []),
     ("default", .bool true),
     ("deprecated", ofType "boolean" []),
     ("readOnly", ofType "boolean" []),
     ("writeOnly", ofType "boolean" []),
     ("examples", ofType "array" [("items", .bool true)])] []

/-- The keyword for formats. -/
def formatAnnotation : String × Value :=
  vocabulary "format-annotation" "Format vocabulary meta-schema for annotation results"
    [("format", ofType "string" [])] []

/-- Keywords about encoded content. -/
def content : String × Value :=
  vocabulary "content" "Content vocabulary meta-schema"
    [("contentEncoding", ofType "string" []),
     ("contentMediaType", ofType "string" []),
     ("contentSchema", anySchema)] []

/-- The schema of schemas. -/
def schema : Value :=
  .object
    [("$schema", .str dialect),
     ("$id", .str dialect),
     ("$dynamicAnchor", .str "meta"),
     ("title", .str "Core and Validation specifications meta-schema"),
     ("allOf", .list
       [reference "meta/core", reference "meta/applicator", reference "meta/unevaluated",
        reference "meta/validation", reference "meta/meta-data",
        reference "meta/format-annotation", reference "meta/content"]),
     ("type", .texts ["object", "boolean"]),
     ("properties", .object
       [("definitions", schemaTable []),
        ("dependencies", ofType "object" [("additionalProperties", .object
          [("anyOf", .list [anySchema, reference "meta/validation#/$defs/stringArray"])])]),
        ("$recursiveAnchor", reference "meta/core#/$defs/anchorString"),
        ("$recursiveRef", reference "meta/core#/$defs/uriReferenceString")])]

/-- The schema of schemas and its vocabularies, by their addresses. -/
def schemas : List (String × Value) :=
  [(dialect, schema), core, applicator, unevaluated, validation, metaData, formatAnnotation,
   content]

/-- The registry that schemas are checked in. -/
def registry : Registry := .ofSchemas schemas

/-- The violations of the schema of schemas by a value. -/
def schemaViolations (v : Value) : Except Fault (List Violation) :=
  violations registry ⟨schema, ⟨0, []⟩⟩ v

/-- What is wrong with a value that is to be a schema: the message that tells the most. -/
def complaint? (v : Value) : Except Fault (Option String) :=
  return (← Violation.best? (← schemaViolations v)).map (·.message)

end BusinessModel.Schema.Metaschema
