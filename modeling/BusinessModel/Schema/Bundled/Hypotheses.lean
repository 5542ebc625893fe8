import BusinessModel.Schema.Bundled.Terms

/-!
The schema of hypotheses documents.
-/

namespace BusinessModel.Schema.Bundled

/-- The definition of `HypothesisTree` in hypotheses documents. -/
def hypothesisTreeSchema : Form :=
  record ["name"]
    [("name", ofType "string" []),
     ("question", ofType "string" []),
     ("process", shared "ProcessRef"),
     ("hypotheses", tableOf "HypothesisRef" "Hypothesis")]

/-- The definition of `Hypothesis` in hypotheses documents. -/
def hypothesisSchema : Form :=
  record ["statement"]
    [("statement", ofType "string" []),
     ("status", choice ["open", "supported", "refuted", "inconclusive"] []),
     ("parent", shared "HypothesisRef"),
     ("children", listOf (shared "HypothesisRef")),
     ("linkedHypotheses", listOf (shared "HypothesisRef")),
     ("evidence", tableOf "EvidenceRef" "Evidence")]

/-- The definition of `Evidence` in hypotheses documents. -/
def evidenceSchema : Form :=
  record ["description"]
    [("description", ofType "string" []),
     ("source", shared "MiningSourceRef"),
     ("supports", ofType "boolean" [])]

/-- The schema of documents of the type `hypotheses`. -/
def hypothesesDocument : DocumentSchema where
  type := "hypotheses"
  title := "Hypotheses document"
  required := ["ubml"]
  multiplicity := "multiple"
  detectBy := ["hypothesisTrees"]
  properties := commonProperties ++
    [("hypothesisTrees", tableOf "HypothesisTreeRef" "HypothesisTree")]
  definitions :=
    [("HypothesisTree", hypothesisTreeSchema), ("Hypothesis", hypothesisSchema),
     ("Evidence", evidenceSchema)]

end BusinessModel.Schema.Bundled
