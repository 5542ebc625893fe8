import BusinessModel.Document.Load
import BusinessModel.Schema.Set

/-!
Sets of schemas in files: an index that lists the document types, the shared definitions, and a file
for each type, which has to declare the type.
-/

namespace BusinessModel

/-- What is in a schema file: a text, or a schema that has been read already. -/
inductive SchemaFile where
  | text (s : String)
  | read (v : Value)
deriving Inhabited

/-- A directory of schema files: its name, and all files by the components of their paths, those of
the name included. -/
structure SchemaDirectory where
  name : String
  files : List (List String × SchemaFile) := []
deriving Inhabited

namespace SchemaDirectory

/-- A path below the directory, as reports name it. -/
def fullPath (d : SchemaDirectory) (path : String) : String :=
  FilePath.normalize (d.name ++ "/" ++ path)

/-- The files with one written or, without content, deleted. -/
def putFile (files : List (List String × SchemaFile)) (path : String)
    (content : Option SchemaFile) : List (List String × SchemaFile) :=
  let place := FilePath.resolve path
  (content.map (place, ·)).toList ++ files.filter (·.1 != place)

/-- The directory with a file below it written or deleted. -/
def put (d : SchemaDirectory) (path : String) (content : Option SchemaFile) : SchemaDirectory :=
  { d with files := putFile d.files (d.fullPath path) content }

/-- The file at a path below the directory, or the report of the system on why there is none. -/
def file (d : SchemaDirectory) (path : String) : Except String SchemaFile :=
  let full := d.fullPath path
  let place := FilePath.resolve full
  match d.files.lookup place with
  | some f => .ok f
  | none =>
    if d.files.any fun f => place.isPrefixOf f.1 then .error (directoryInPlace full)
    else if d.files.any fun f => f.1.isPrefixOf place then .error (fileInPlace full)
    else .error (missingFile full)

/-- The report on a text that is not in the form of schema files. -/
def yamlReport? (path : String) : Yaml.Error → Option String
  | .marked e => some (e.report path)
  | .character c index => some (Yaml.characterReport path c index)
  | _ => none

/-- The value of a text. -/
def valueOfText (path text : String) : Except SchemaSetError Value :=
  let text := Text.unifyLines text.toList
  match (do Yaml.load .strict (← Yaml.events text)) with
  | .ok loaded => .ok loaded.toValue
  | .error cause =>
    match yamlReport? path cause with
    | some report => .error (.refused path ("schema file is not valid YAML (" ++ report ++ ")"))
    | none => .error (.scalar cause)

/-- The mapping in a schema file. -/
def readSchema (d : SchemaDirectory) (path : String) : Except SchemaSetError Value := do
  let full := d.fullPath path
  let v ← match d.file path with
    | .error report => throw (.refused full ("cannot read schema file (" ++ report ++ ")"))
    | .ok (.text s) => valueOfText full s
    | .ok (.read v) => pure v
  if v.isMap then return v
  throw (.refused full "schema file must contain a mapping")

/-- The path of the index. -/
def indexPath : String := "ubml.schema.yaml"

/-- The path of the shared definitions. -/
def definitionsPath : String := "common/defs.schema.yaml"

/-- The path of the schema of a document type. -/
def documentPath (type : String) : String := "documents/" ++ type ++ ".document.yaml"

/-- The schema of a document type, which has to declare the type. -/
def readDocumentSchema (d : SchemaDirectory) (type : Value) :
    Except SchemaSetError (String × Value) := do
  let path := documentPath type.text
  let schema ← d.readSchema path
  let block ← (Schema.Block.entries (schema.get? "x-ubml-document")).mapError .malformed
  let declared := (Value.lookup "type" block).getD .null
  if declared.same type then return (type.text, schema)
  throw (.refused (d.fullPath path)
    ("declares document type " ++ declared.quote ++ ", expected " ++ type.quote))

/-- The set of schemas in the directory. -/
def load (d : SchemaDirectory) : Except SchemaSetError SchemaSet := do
  let index ← d.readSchema indexPath
  let definitions ← d.readSchema definitionsPath
  match index.get? "x-ubml-documents" with
  | some (.list (type :: types)) =>
    let documents ← (type :: types).mapM d.readDocumentSchema
    SchemaSet.ofSchemas (FilePath.normalize d.name) index definitions
      (Keyed.ofList documents)
  | _ => throw (.refused (d.fullPath indexPath) "x-ubml-documents is empty")

/-- A directory with the bundled schemas. -/
def bundled (name : String) : SchemaDirectory :=
  let documents := Schema.Bundled.documentSchemas.map fun (type, v) => (documentPath type, v)
  let schemas := (indexPath, Schema.Bundled.indexSchema) ::
    (definitionsPath, Schema.Bundled.definitionsSchema) :: documents
  schemas.foldl (fun d (path, v) => d.put path (some (.read v))) { name }

end SchemaDirectory

end BusinessModel
