import BusinessModel.Schema.Bundled.Terms

/-!
The schema of process mining documents.
-/

namespace BusinessModel.Schema.Bundled

/-- The definition of `MiningSource` in mining documents. -/
def miningSourceSchema : Form :=
  record ["name"]
    [("name", ofType "string" []),
     ("system", shared "ActorRef"),
     ("process", shared "ProcessRef"),
     ("format", choice ["csv", "xes", "ocel", "database"] []),
     ("activityMapping", mapping
       [("type", "object"), ("propertyNames", .object [("type", "string")])] (shared "StepRef"))]

/-- The schema of documents of the type `mining`. -/
def miningDocument : DocumentSchema where
  type := "mining"
  title := "Process mining document"
  required := ["ubml"]
  multiplicity := "multiple"
  detectBy := ["miningSources"]
  properties := commonProperties ++
    [("miningSources", tableOf "MiningSourceRef" "MiningSource")]
  definitions :=
    [("MiningSource", miningSourceSchema)]

end BusinessModel.Schema.Bundled
