import BusinessModel.Diagnostic.FindingAdvice
import BusinessModel.Document.Load
import BusinessModel.Schema.Files
import BusinessModel.Workspace.ReferenceAdvice

/-!
Checking documents against a set of schemas, one by one and as the documents of a workspace.

A service keeps apart the schemas that documents are checked against, what it explains findings with,
and what it follows references by. Another set of schemas takes the place of all three, once it has
been loaded. A check is carried out without regard to strictness; only its result is graded.
-/

namespace BusinessModel

/-- The parts of a check, and the ways to grade what is found: whether warnings count as errors, and
whether there are warnings on identifiers that nothing refers to. The parts of a new service are
those of one set of schemas. -/
structure Service where
  /-- The schemas that documents are checked against. -/
  schemas : SchemaSet
  /-- What findings are explained with. -/
  adviser : Schema.Metadata := schemas.metadata
  /-- What identifiers and references are recognised by. -/
  guide : Schema.Metadata := schemas.metadata
  strict : Bool := false
  suppressUnused : Bool := false
deriving Inhabited

/-- Why a check does not come to an end. -/
inductive ServiceError where
  /-- A scalar in a text has no value. -/
  | text (cause : Yaml.Error)
  /-- A document cannot be checked against its schema. -/
  | check (cause : CheckError)
  /-- A finding cannot be explained. -/
  | explanation (cause : ExplanationFault)
  /-- An element around a reference is not defined. -/
  | owner (cause : UnknownOwner)
deriving Inhabited

/-- The diagnostic of what is to be reported of the text of a file. -/
def Issue.diagnostic (i : Issue) (file : String) (severity : Severity) : Diagnostic :=
  { code := i.code, message := i.message, severity, filepath := some file
    span := i.line.map fun line =>
      ⟨file, line, match i.column with
        | some column => if column == 0 then 1 else column
        | none => 1⟩ }

/-- The warning on a document without a type. -/
def Document.unknownTypeWarning (d : Document) : Diagnostic :=
  { code := .unknownDocumentType, severity := .warning
    message := "Could not determine the document type of " ++ d.filepath
    filepath := some d.filepath, path := some "", span := d.location? ""
    hint := some "Name the file <name>.<type>.ubml.yaml, e.g. sales.process.ubml.yaml" }

namespace Service

/-- The advice on findings. -/
def hints (s : Service) : Schema.Hints := s.adviser.hints

/-- Whether a result is strict: as it is asked for, or else as the service is. -/
def strictness (s : Service) (strict : Option Bool) : Bool := strict.getD s.strict

/-- What is wrong with a document by itself. -/
def documentResult (s : Service) (d : Document) : Except ServiceError ValidationResult :=
  match d.type with
  | none => .ok { warnings := [d.unknownTypeWarning] }
  | some type => do
    let found ← (s.schemas.findings (some type) d.content.toValue).mapError .check
    let errors ← found.mapM fun f => (f.diagnostic s.hints (some d) none).mapError .explanation
    return { errors }

/-- What is wrong with the references between documents. -/
def referenceResult (s : Service) (documents : List Document) :
    Except ServiceError ValidationResult := do
  let options : ReferenceOptions := { suppressUnused := s.suppressUnused }
  let report ← (Workspace.checkReferences s.guide documents options).mapError .owner
  let advise := ReferenceAdvice.advise (some s.adviser) report.registry
  return ⟨report.errors.map advise, report.warnings.map advise⟩

/-- What is wrong with documents, each by itself in their order and then all together. -/
def workspaceResult (s : Service) (documents : List Document) :
    Except ServiceError ValidationResult := do
  let results ← documents.mapM s.documentResult
  return results.foldr (· ++ ·) (← s.referenceResult documents)

/-- Checks a document against its schema. -/
def validateDocument (s : Service) (d : Document) (strict : Option Bool := none) :
    Except ServiceError ValidationResult :=
  return (← s.documentResult d).graded (s.strictness strict)

/-- Checks all documents of a workspace. -/
def validate (s : Service) (documents : List Document) (strict : Option Bool := none) :
    Except ServiceError ValidationResult :=
  return (← s.workspaceResult documents).graded (s.strictness strict)

/-- The result of reading a text. The warning on an unknown type is left to the check of the
document. -/
def parsingResult (r : ParseResult) (file : String) : ValidationResult :=
  { errors := r.errors.map fun i => i.diagnostic file .error
    warnings := (r.warnings.filter (·.code != .unknownDocumentType)).map fun i =>
      i.diagnostic file .warning }

/-- Reads a text and checks it as the only document of a workspace. -/
def parseAndValidate (s : Service) (text : String) (filename : Option String)
    (strict : Option Bool := none) : Except ServiceError ValidationResult := do
  let parsed ← (Document.parse {} text filename).mapError .text
  let reading := parsingResult parsed (Document.reportedFile filename)
  let result ←
    match parsed.document with
    | some d => if reading.valid then s.workspaceResult [d] else pure {}
    | none => pure {}
  return (reading ++ result).graded (s.strictness strict)

/-- The service with all parts from the schemas of a directory. -/
def reload (s : Service) (d : SchemaDirectory) : Except SchemaSetError Service := do
  let schemas ← d.load
  return { s with adviser := schemas.metadata, guide := schemas.metadata, schemas }

end Service

end BusinessModel
