import BusinessModel.Schema.Bundled.Terms

/-!
The schema of scenarios documents.
-/

namespace BusinessModel.Schema.Bundled

/-- The definition of `Scenario` in scenarios documents. -/
def scenarioSchema : Form :=
  record ["name"]
    [("name", ofType "string" []),
     ("description", ofType "string" []),
     ("process", shared "ProcessRef"),
     ("actors", listOf (shared "ActorRef")),
     ("frequency", ofType "string" []),
     ("expectedDuration", shared "Duration")]

/-- The schema of documents of the type `scenarios`. -/
def scenariosDocument : DocumentSchema where
  type := "scenarios"
  title := "Scenarios document"
  required := ["ubml"]
  multiplicity := "multiple"
  detectBy := ["scenarios"]
  properties := commonProperties ++
    [("scenarios", tableOf "ScenarioRef" "Scenario")]
  definitions :=
    [("Scenario", scenarioSchema)]

end BusinessModel.Schema.Bundled
