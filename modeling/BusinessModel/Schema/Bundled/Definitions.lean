import BusinessModel.Schema.Bundled.Terms

/-!
The definitions that the bundled schemas share: identifiers, formats, structures and choices.
-/

namespace BusinessModel.Schema.Bundled

/-- The schema of the identifiers of a kind of element, which are also what refers to it. -/
def identifier (letters elementType documentType humanName : String) : Form :=
  let first := letters ++ "00001"
  ofType "string"
    [("pattern", .str ("^" ++ letters ++ "\\d\x7b5,\x7d$")),
     ("examples", .texts [first]),
     ("x-ubml", .object
       [("prefix", .str letters),
        ("elementType", .str elementType),
        ("documentType", .str documentType),
        ("humanName", .str humanName),
        ("errorHint", .str (humanName ++ "s are " ++ letters ++ " followed by 5+ digits (e.g., " ++
          first ++ ")."))])]

/-- The kinds of elements: the definition of their identifiers, the letters in front, the element
type, the type of the documents that define them, and the name for people. -/
def identifierKinds : List (String × String × String × String × String) :=
  [("ActorRef", "AC", "actor", "actors", "Actor ID"),
   ("PersonaRef", "PS", "persona", "actors", "Persona ID"),
   ("SkillRef", "SK", "skill", "actors", "Skill ID"),
   ("ResourcePoolRef", "RP", "resourcePool", "actors", "Resource pool ID"),
   ("EquipmentRef", "EQ", "equipment", "actors", "Equipment ID"),
   ("EntityRef", "EN", "entity", "entities", "Entity ID"),
   ("DocumentRef", "DC", "document", "entities", "Document ID"),
   ("LocationRef", "LO", "location", "entities", "Location ID"),
   ("ProcessRef", "PR", "process", "process", "Process ID"),
   ("StepRef", "ST", "step", "process", "Step ID"),
   ("BlockRef", "BK", "block", "process", "Block ID"),
   ("PhaseRef", "PH", "phase", "process", "Phase ID"),
   ("ScenarioRef", "SC", "scenario", "scenarios", "Scenario ID"),
   ("HypothesisTreeRef", "HT", "hypothesisTree", "hypotheses", "Hypothesis tree ID"),
   ("HypothesisRef", "HY", "hypothesis", "hypotheses", "Hypothesis ID"),
   ("EvidenceRef", "EV", "evidence", "hypotheses", "Evidence ID"),
   ("ValueStreamRef", "VS", "valueStream", "strategy", "Value stream ID"),
   ("CapabilityRef", "CP", "capability", "strategy", "Capability ID"),
   ("ProductRef", "PD", "product", "strategy", "Product ID"),
   ("ServiceRef", "SV", "service", "strategy", "Service ID"),
   ("PortfolioRef", "PF", "portfolio", "strategy", "Portfolio ID"),
   ("KpiRef", "KP", "kpi", "metrics", "KPI ID"),
   ("RoiAnalysisRef", "ROI", "roiAnalysis", "metrics", "ROI analysis ID"),
   ("MiningSourceRef", "MS", "miningSource", "mining", "Mining source ID"),
   ("ViewRef", "VW", "view", "views", "View ID")]

/-- The definition of `UbmlVersion`. -/
def ubmlVersionDefinition : Form :=
  ofType "string"
    [("pattern", .str "^\\d+\\.\\d+$"),
     ("examples", .texts ["1.0"]),
     ("x-ubml", .object
         [("humanName", .str "UBML version"),
          ("errorHint", .str "Use a quoted major.minor version string.")])]

/-- The definition of `Duration`. -/
def durationDefinition : Form :=
  ofType "string"
    [("pattern", .str "^[0-9]+(\\.[0-9]+)?(min|h|d|wk|mo)$"),
     ("examples", .texts ["30min", "2h", "1.5d"]),
     ("x-ubml", .object
         [("humanName", .str "duration"),
          ("errorHint", .str "A duration is a number followed by a unit: min, h, d, wk or mo.")])]

/-- The definition of `TimeOfDay`. -/
def timeOfDayDefinition : Form :=
  ofType "string"
    [("pattern", .str "^[0-2][0-9]:[0-5][0-9]$"),
     ("examples", .texts ["09:00", "17:30"]),
     ("x-ubml", .object
         [("humanName", .str "time of day"),
          ("errorHint", .str "Times use the 24-hour HH:MM format.")])]

/-- The definition of `Tags`. -/
def tagsDefinition : Form :=
  listOf (ofType "string" [])

/-- The definition of `AnyRef`. -/
def anyRefDefinition : Form :=
  ofType "string"
    [("pattern", .str
       ("^(AC|PS|SK|RP|EQ|EN|DC|LO|PR|ST|BK|PH|SC|HT|HY|EV|VS|CP|PD|SV|PF|KP|ROI|MS|VW)" ++
         "\\d\x7b5,\x7d$")),
     ("examples", .texts ["AC00001", "PR00001"]),
     ("x-ubml", .object
         [("anyReference", .bool true),
          ("humanName", .str "element ID"),
          ("errorHint",
            .str ("Element IDs are a 2-3 letter type prefix followed by 5+ digits (e.g., " ++
              "AC00001, PR00001)."))])]

/-- The definition of `RACI`. -/
def raciDefinition : Form :=
  .fields [("type", "object"), ("additionalProperties", .bool false)]
    [("responsible", listOf (own "ActorRef")),
     ("accountable", listOf (own "ActorRef")),
     ("consulted", listOf (own "ActorRef")),
     ("informed", listOf (own "ActorRef"))]
    [("x-ubml", .object
       [("parentProperty", .str "RACI"),
        ("nestedProperties", .texts ["responsible", "accountable", "consulted", "informed"]),
        ("misplacementHint", .str "Did you mean to put this inside 'RACI'?"),
        ("misplacementExample", .str "RACI:\n  \x7bproperty\x7d: [AC00001]")])]

/-- The definition of `StepKind`. -/
def stepKindDefinition : Form :=
  choice ["action", "milestone", "decision", "subprocess", "wait", "handoff", "start", "end"]
    [("task", "'task' is not a valid step kind. Use 'action' for work steps."),
     ("activity", "'activity' is not a valid step kind. Use 'action' for work steps."),
     ("gateway", "Use 'decision' for branching points (BPMN gateways map to decisions)."),
     ("event", "Use 'start', 'end', 'wait', or 'milestone' depending on what the event marks.")]

/-- The definition of `ActorType`. -/
def actorTypeDefinition : Form :=
  choice ["person", "role", "team", "system", "organization", "external", "customer"]
    [("user", "Use 'person' for a named individual or 'role' for a job function."),
     ("service", "Use 'system' for software services, APIs and automated tools."),
     ("human", "Use 'person' or 'role'; 'human' is an actor 'kind', not a 'type'.")]

/-- The definition of `ActorKind`. -/
def actorKindDefinition : Form :=
  choice ["human", "system", "org"]
    [("person", "'person' is an actor 'type'. Use 'human' for the kind."),
     ("organization", "Use 'org' for organisational actors.")]

/-- The definition of `Priority`. -/
def priorityDefinition : Form :=
  choice ["low", "normal", "high", "urgent"] []

/-- The definition of `PhaseKind`. -/
def phaseKindDefinition : Form :=
  choice ["lifecycle", "delivery"] []

/-- The definitions that documents of all types share. -/
def sharedDefinitions : List (String × Form) :=
  [("UbmlVersion", ubmlVersionDefinition), ("Duration", durationDefinition),
   ("TimeOfDay", timeOfDayDefinition), ("Tags", tagsDefinition)] ++
  identifierKinds.map (fun (name, letters, elementType, documentType, humanName) =>
    (name, identifier letters elementType documentType humanName)) ++
  [("AnyRef", anyRefDefinition), ("RACI", raciDefinition), ("StepKind", stepKindDefinition),
   ("ActorType", actorTypeDefinition), ("ActorKind", actorKindDefinition),
   ("Priority", priorityDefinition), ("PhaseKind", phaseKindDefinition)]

/-- What to say of a missing property: the property, advice, and an example. -/
def requiredHints : List (String × String × String) :=
  [("ubml",
    "Every UBML document starts with the 'ubml' version marker.",
    "ubml: \"1.0\""),
   ("name",
    "Elements need a human-readable 'name'.",
    "name: \"Approve Invoice\""),
   ("kind",
    "Steps declare what kind of work they represent.",
    "kind: action"),
   ("type",
    "Actors declare whether they are a person, role, team or system.",
    "type: role"),
   ("statement",
    "Hypotheses are written as a testable statement.",
    "statement: \"Manual approvals cause most of the delay\""),
   ("term",
    "Glossary entries name the term they define.",
    "term: \"Purchase Order\""),
   ("definition",
    "Glossary entries explain what the term means.",
    "definition: \"A buyer-issued document authorising a purchase\"")]

/-- The schema of the shared definitions. -/
def definitionsSchema : Value :=
  .object (heading "common/defs.schema.yaml" "UBML shared definitions" ++
    [("x-ubml-id-config", .object [("digitLength", .int 5), ("initOffset", .int 1)]),
     ("x-ubml-hierarchy", .object
       [("parentFields", .texts ["parent"]), ("childFields", .texts ["children"])]),
     ("x-ubml-required-hints", .object (requiredHints.map fun (name, hint, shown) =>
       (name, .object [("hint", .str hint), ("example", .str shown)]))),
     ("$defs", .object (Form.namedValues sharedDefinitions))])

end BusinessModel.Schema.Bundled
