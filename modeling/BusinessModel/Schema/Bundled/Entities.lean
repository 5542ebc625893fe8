import BusinessModel.Schema.Bundled.Terms

/-!
The schema of entities documents.
-/

namespace BusinessModel.Schema.Bundled

/-- The definition of `Entity` in entities documents. -/
def entitySchema : Form :=
  record ["name"]
    [("name", ofType "string" []),
     ("description", ofType "string" []),
     ("owner", shared "ActorRef"),
     ("parent", shared "EntityRef"),
     ("attributes", mapping [("type", "object")]
       (.fields [("type", "object")]
         [("type", choice ["string", "number", "integer", "boolean", "date", "reference"] []),
          ("required", ofType "boolean" []),
          ("description", ofType "string" [])]
         [("additionalProperties", .bool false)]))]

/-- The definition of `BusinessDocument` in entities documents. -/
def businessDocumentSchema : Form :=
  record ["name"]
    [("name", ofType "string" []), ("entity", shared "EntityRef"), ("owner", shared "ActorRef")]

/-- The definition of `Location` in entities documents. -/
def locationSchema : Form :=
  record ["name"]
    [("name", ofType "string" []),
     ("parent", shared "LocationRef"),
     ("address", ofType "string" [])]

/-- The schema of documents of the type `entities`. -/
def entitiesDocument : DocumentSchema where
  type := "entities"
  title := "Entities document"
  required := ["ubml"]
  multiplicity := "catalog"
  detectBy := ["entities", "locations"]
  properties := commonProperties ++
    [("entities", tableOf "EntityRef" "Entity"),
     ("documents", tableOf "DocumentRef" "BusinessDocument"),
     ("locations", tableOf "LocationRef" "Location")]
  definitions :=
    [("Entity", entitySchema), ("BusinessDocument", businessDocumentSchema),
     ("Location", locationSchema)]

end BusinessModel.Schema.Bundled
