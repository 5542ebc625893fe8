import BusinessModel.Value

/-!
The forms of which the bundled schemas are made.
-/

namespace BusinessModel.Schema.Bundled

/-- The address below which the bundled schemas live. -/
def baseAddress : String := "https://ubml.io/schemas/1.0/"

/-- What every schema begins with: the dialect, its address and its title. -/
def heading (path title : String) : List (String × Value) :=
  [("$schema", .str "https://json-schema.org/draft/2020-12/schema"),
   ("$id", .str (baseAddress ++ path)),
   ("title", .str title)]

/-- A bundled schema or a part of one. -/
inductive Form where
  /-- Values without parts that a schema looks at. -/
  | leaf (keywords : List (String × Value))
  /-- Mappings with declared properties, between other keywords. -/
  | fields (front : List (String × Value)) (properties : List (String × Form))
      (back : List (String × Value))
  /-- Lists of items. -/
  | listOf (item : Form)
  /-- Mappings from identifiers to elements. -/
  | tableOf (key element : String)
  /-- Mappings from any keys to values, behind other keywords. -/
  | mapping (front : List (String × Value)) (value : Form)
  /-- A reference to a definition that all documents share. -/
  | shared (name : String)
  /-- A reference to a definition of the same schema. -/
  | own (name : String)
  /-- A choice between several ways. -/
  | oneOf (ways : List Form)

export Form (listOf tableOf mapping shared own oneOf)

/-- What leads to a definition that all documents share. -/
def sharedReference (name : String) : String := "../common/defs.schema.yaml#/$defs/" ++ name

/-- What leads to a definition of the same schema. -/
def ownReference (name : String) : String := "#/$defs/" ++ name

/-- A schema that is a reference. -/
def referring (reference : String) : Value := .object [("$ref", .str reference)]

namespace Form

mutual

/-- The schema of a form. -/
def value : Form → Value
  | leaf keywords => .object keywords
  | fields front properties back =>
    .object (front ++ ("properties", .object (namedValues properties)) :: back)
  | listOf item => .object [("type", "array"), ("items", item.value)]
  | tableOf key element =>
    .object
      [("type", "object"), ("propertyNames", referring (sharedReference key)),
       ("additionalProperties", referring (ownReference element))]
  | mapping front element => .object (front ++ [("additionalProperties", element.value)])
  | shared name => referring (sharedReference name)
  | own name => referring (ownReference name)
  | oneOf ways => .object [("oneOf", .list (listedValues ways))]

/-- The schemas of forms with names. -/
def namedValues : List (String × Form) → List (String × Value)
  | [] => []
  | (name, f) :: rest => (name, f.value) :: namedValues rest

/-- The schemas of forms. -/
def listedValues : List Form → List Value
  | [] => []
  | f :: rest => f.value :: listedValues rest

end

end Form

/-- Values of a type, with further keywords. -/
def ofType (name : String) (keywords : List (String × Value)) : Form :=
  .leaf (("type", .str name) :: keywords)

/-- One of several words, with advice on words that are mistaken for one of them. -/
def choice (words : List String) (mistakes : List (String × String)) : Form :=
  let advice (mistake : String × String) : String × Value :=
    (mistake.1, .object [("hint", .str mistake.2)])
  ofType "string" (("enum", .texts words) ::
    if mistakes.isEmpty then []
    else [("x-ubml", .object [("valueMistakes", .object (mistakes.map advice))])])

/-- Mappings with the given properties only. -/
def record (required : List String) (properties : List (String × Form)) : Form :=
  .fields (("type", .str "object") ::
    ((if required.isEmpty then [] else [("required", .texts required)]) ++
      [("additionalProperties", .bool false)])) properties []

/-- A schema for the documents of a type. -/
structure DocumentSchema where
  type : String
  title : String
  required : List String
  multiplicity : String
  detectBy : List String
  properties : List (String × Form)
  definitions : List (String × Form)

namespace DocumentSchema

/-- The form of the schema. -/
def form (d : DocumentSchema) : Form :=
  .fields (heading ("documents/" ++ d.type ++ ".document.yaml") d.title ++
    [("type", .str "object"),
     ("required", .texts d.required),
     ("additionalProperties", .bool false),
     ("x-ubml-document", .object
       [("type", .str d.type), ("multiplicity", .str d.multiplicity),
        ("detectBy", .texts d.detectBy)])])
    d.properties
    (if d.definitions.isEmpty then []
     else [("$defs", .object (Form.namedValues d.definitions))])

end DocumentSchema

/-- The properties that documents of every type may have. -/
def commonProperties : List (String × Form) :=
  [("ubml", shared "UbmlVersion"),
   ("name", ofType "string" []),
   ("description", ofType "string" []),
   ("tags", shared "Tags")]

end BusinessModel.Schema.Bundled
