import BusinessModel.Schema.Bundled.Terms

/-!
The schema of metrics documents.
-/

namespace BusinessModel.Schema.Bundled

/-- The definition of `Kpi` in metrics documents. -/
def kpiSchema : Form :=
  record ["name"]
    [("name", ofType "string" []),
     ("description", ofType "string" []),
     ("unit", ofType "string" []),
     ("direction", choice ["increase", "decrease", "maintain"] []),
     ("target", ofType "number" []),
     ("baseline", ofType "number" []),
     ("owner", shared "ActorRef"),
     ("process", shared "ProcessRef"),
     ("relatedTo", listOf (shared "AnyRef"))]

/-- The definition of `RoiAnalysis` in metrics documents. -/
def roiAnalysisSchema : Form :=
  record ["name"]
    [("name", ofType "string" []),
     ("investment", ofType "number" [("minimum", .int 0)]),
     ("annualBenefit", ofType "number" []),
     ("paybackPeriod", shared "Duration"),
     ("kpis", listOf (shared "KpiRef"))]

/-- The schema of documents of the type `metrics`. -/
def metricsDocument : DocumentSchema where
  type := "metrics"
  title := "Metrics document"
  required := ["ubml"]
  multiplicity := "catalog"
  detectBy := ["kpis", "metrics", "roiAnalyses"]
  properties := commonProperties ++
    [("kpis", tableOf "KpiRef" "Kpi"), ("roiAnalyses", tableOf "RoiAnalysisRef" "RoiAnalysis")]
  definitions :=
    [("Kpi", kpiSchema), ("RoiAnalysis", roiAnalysisSchema)]

end BusinessModel.Schema.Bundled
