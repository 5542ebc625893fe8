import BusinessModel.Schema.Bundled.Actors
import BusinessModel.Schema.Bundled.Definitions
import BusinessModel.Schema.Bundled.Entities
import BusinessModel.Schema.Bundled.Glossary
import BusinessModel.Schema.Bundled.Hypotheses
import BusinessModel.Schema.Bundled.Links
import BusinessModel.Schema.Bundled.Metrics
import BusinessModel.Schema.Bundled.Mining
import BusinessModel.Schema.Bundled.Process
import BusinessModel.Schema.Bundled.Scenarios
import BusinessModel.Schema.Bundled.Strategy
import BusinessModel.Schema.Bundled.Views
import BusinessModel.Schema.Bundled.Workspace

/-!
The bundled schemas: the index of the document types, the shared definitions, and a schema for the
documents of each type.
-/

namespace BusinessModel.Schema.Bundled

/-- The document types, in the order in which they are tried. -/
def documents : List DocumentSchema :=
  [processDocument, actorsDocument, entitiesDocument, hypothesesDocument, metricsDocument,
   scenariosDocument, strategyDocument, miningDocument, viewsDocument, linksDocument,
   glossaryDocument, workspaceDocument]

/-- The schemas of the document types. -/
def documentSchemas : List (String × Value) := documents.map fun d => (d.type, d.form.value)

/-- The schema that lists the document types. -/
def indexSchema : Value :=
  .object (heading "ubml.schema.yaml" "UBML schema index" ++
    [("description", .str
       ("Lists the document schemas in content-detection order. Document types whose signature " ++
         "keys overlap (links inside processes) must come after the more specific type.\n")),
     ("x-ubml-documents", .texts (documentSchemas.map (·.1))),
     ("x-ubml-common-properties", .texts ["ubml", "name", "description", "tags"])])

end BusinessModel.Schema.Bundled
