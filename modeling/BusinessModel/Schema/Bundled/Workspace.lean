import BusinessModel.Schema.Bundled.Terms

/-!
The schema of workspace documents.
-/

namespace BusinessModel.Schema.Bundled

/-- The schema of documents of the type `workspace`. -/
def workspaceDocument : DocumentSchema where
  type := "workspace"
  title := "Workspace document"
  required := ["ubml", "name"]
  multiplicity := "singleton"
  detectBy := ["organization", "documents"]
  properties :=
    [("ubml", shared "UbmlVersion"),
     ("name", ofType "string" [("examples", .texts ["ACME Procurement"])]),
     ("description", ofType "string" []),
     ("tags", shared "Tags"),
     ("organization", record []
         [("name", ofType "string" []),
          ("industry", ofType "string" []),
          ("owner", shared "ActorRef")]),
     ("documents", listOf
         (ofType "string"
            [("pattern", .str "\\.ubml\\.ya?ml$"),
             ("examples", .texts ["procurement.process.ubml.yaml"]),
             ("x-ubml", .object
                 [("humanName", .str "document path"),
                  ("errorHint", .str "Workspace documents are paths to *.ubml.yaml files.")])])),
     ("status", choice ["draft", "review", "approved", "archived"] [])]
  definitions := []

end BusinessModel.Schema.Bundled
