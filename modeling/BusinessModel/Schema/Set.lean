import BusinessModel.Schema.Bundled
import BusinessModel.Schema.Metadata
import BusinessModel.Schema.Metaschema
import BusinessModel.Yaml.Error

/-!
A set of schemas: an index, shared definitions, and a schema for each type of documents. It is built
only if every schema has an address of its own and is a schema.
-/

namespace BusinessModel

/-- Why a set of schemas is refused. -/
inductive SchemaSetError where
  /-- Something is wrong with the set or a file of it. -/
  | refused (place reason : String)
  /-- A schema is asked for its address and is no mapping. -/
  | noMapping
  /-- A block of metadata does not have its form. -/
  | malformed (cause : Schema.Malformed)
  /-- The check of a schema cannot be carried out. -/
  | fault (cause : Schema.Fault)
  /-- A scalar in a schema file has no value. -/
  | scalar (cause : Yaml.Error)
deriving Inhabited

/-- There is no schema for a document type. -/
structure UnknownType where
  type : Option String
  available : List String
deriving DecidableEq, Repr, Inhabited

/-- The report on a document type without a schema. -/
def UnknownType.message (e : UnknownType) : String :=
  "No schema registered for document type '" ++ e.type.getD "None" ++ "'. Available: " ++
    ", ".intercalate e.available

/-- The report on a set of schemas that is refused. -/
def SchemaSetError.message (place reason : String) : String :=
  "Invalid schema set at " ++ place ++ ": " ++ reason

/-- A set of schemas. Its registry also knows the schemas of schemas. -/
structure SchemaSet where
  source : String
  index : Value
  definitions : Value
  documents : List (String × Value)
  registry : Schema.Registry
  metadata : Schema.Metadata
deriving Inhabited

namespace SchemaSet

open Schema

/-- The schemas of a set with their labels. -/
def labelled (index definitions : Value) (documents : List (String × Value)) :
    List (String × Value) :=
  ("ubml.schema.yaml", index) :: ("common/defs.schema.yaml", definitions) ::
    documents.map fun (type, v) => (type ++ " document schema", v)

/-- The address of a schema, as it is written. -/
def addressOf (v : Value) : Except SchemaSetError (Option String) :=
  match v with
  | .map es =>
    .ok (((Value.lookup "$id" es).bind Value.str?).filter (!·.isEmpty))
  | _ => .error .noMapping

/-- The schemas by their addresses: each has one, no two have the same, and all are schemas. -/
def addressed (source : String) (schemas : List (String × Value)) :
    Except SchemaSetError (List (String × Value)) :=
  schemas.foldlM (fun seen (label, v) => do
    match ← addressOf v with
    | none => throw (.refused source (label ++ " has no $id"))
    | some address =>
      if seen.any (·.1 == address) then
        throw (.refused source ("duplicate schema $id " ++ address))
      match Metaschema.complaint? v with
      | .error cause => throw (.fault cause)
      | .ok (some message) => throw (.refused source (label ++ ": " ++ message))
      | .ok none => return seen ++ [(address, v)]) []

/-- How the set is refused if its metadata does not have its form. -/
def refusal (source : String) : Malformed → SchemaSetError
  | .invalid report => .refused source report
  | .missingKey key => .refused source key.quote
  | .reference (.badIndex report) => .refused source report
  | cause => .malformed cause

/-- The set of an index, shared definitions and the schemas of document types. -/
def ofSchemas (source : String) (index definitions : Value) (documents : List (String × Value)) :
    Except SchemaSetError SchemaSet := do
  let schemas ← addressed source (labelled index definitions documents)
  let own := Registry.ofSchemas schemas
  match Metadata.ofSchemas index definitions documents own with
  | .error cause => throw (refusal source cause)
  | .ok metadata =>
    return { source, index, definitions, documents, metadata
             registry := .ofSchemas (schemas ++ Metaschema.schemas) }

/-- The document types. -/
def documentTypes (s : SchemaSet) : List String := s.documents.map (·.1)

/-- The schema of a document type. -/
def schema? (s : SchemaSet) (type : Option String) : Except UnknownType Value :=
  match type.bind fun t => s.documents.lookup t with
  | some v => .ok v
  | none => .error ⟨type, s.documentTypes⟩

/-- The address of the schema of a document type. -/
def addressOfType (s : SchemaSet) (type : Option String) : Except UnknownType String :=
  return ((← s.schema? type).get? "$id").getD .null |>.text

/-- Whether a schema of the set has an address, number signs at the end not counted. -/
def hasAddress (s : SchemaSet) (address : String) : Bool :=
  (labelled s.index s.definitions s.documents).any fun (_, v) =>
    ((v.get? "$id").bind Value.str?).any fun id =>
      Address.dropHashes id == Address.dropHashes address

/-- The place of the schema of a document type: behind the index and the shared definitions. -/
def placeOf (s : SchemaSet) (type : String) : Schema.Place :=
  ⟨(s.documents.findIdx (·.1 == type)) + 2, []⟩

/-- The name of the bundled set. -/
def bundledSource : String := "<bundled>"

/-- The bundled set of schemas. -/
def bundled : SchemaSet :=
  (ofSchemas bundledSource Bundled.indexSchema Bundled.definitionsSchema
    Bundled.documentSchemas).toOption.getD default

end SchemaSet

end BusinessModel
