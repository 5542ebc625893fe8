import BusinessModel.Schema.Bundled.Terms

/-!
The schema of process documents.
-/

namespace BusinessModel.Schema.Bundled

/-- The definition of `Process` in process documents. -/
def processSchema : Form :=
  record ["name"]
    [("id", ofType "string" [("pattern", .str "^PR\\d\x7b5,\x7d$")]),
     ("name", ofType "string" [("examples", .texts ["Order to Cash"])]),
     ("description", ofType "string" []),
     ("level", ofType "integer" [("minimum", .int 1), ("maximum", .int 4)]),
     ("owner", shared "ActorRef"),
     ("parent", shared "ProcessRef"),
     ("children", listOf (shared "ProcessRef")),
     ("triggers", listOf (ofType "string" [])),
     ("phases", tableOf "PhaseRef" "Phase"),
     ("steps", tableOf "StepRef" "Step"),
     ("links", listOf (own "StepLink")),
     ("tags", shared "Tags")]

/-- The definition of `Phase` in process documents. -/
def phaseSchema : Form :=
  record ["name"]
    [("name", ofType "string" []),
     ("kind", shared "PhaseKind"),
     ("steps", listOf (shared "StepRef"))]

/-- The definition of `Step` in process documents. -/
def stepSchema : Form :=
  record ["name"]
    [("name", ofType "string" [("examples", .texts ["Review Invoice"])]),
     ("kind", shared "StepKind"),
     ("description", ofType "string" []),
     ("duration", shared "Duration"),
     ("startTime", shared "TimeOfDay"),
     ("priority", shared "Priority"),
     ("RACI", shared "RACI"),
     ("inputs", listOf (shared "EntityRef")),
     ("outputs", listOf (shared "EntityRef")),
     ("systems", listOf (shared "ActorRef")),
     ("skills", listOf (shared "SkillRef")),
     ("subprocess", shared "ProcessRef"),
     ("location", shared "LocationRef"),
     ("condition", oneOf
       [ofType "string" [],
        record ["expression"]
          [("expression", ofType "string" []), ("description", ofType "string" [])]])]

/-- The definition of `StepLink` in process documents. -/
def stepLinkSchema : Form :=
  record ["from", "to"]
    [("from", shared "StepRef"), ("to", shared "StepRef"), ("condition", ofType "string" [])]

/-- The schema of documents of the type `process`. -/
def processDocument : DocumentSchema where
  type := "process"
  title := "Process document"
  required := ["ubml"]
  multiplicity := "multiple"
  detectBy := ["processes"]
  properties := commonProperties ++
    [("processes", tableOf "ProcessRef" "Process")]
  definitions :=
    [("Process", processSchema), ("Phase", phaseSchema), ("Step", stepSchema),
     ("StepLink", stepLinkSchema)]

end BusinessModel.Schema.Bundled
