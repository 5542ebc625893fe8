import BusinessModel.Schema.Bundled.Terms

/-!
The schema of glossary documents.
-/

namespace BusinessModel.Schema.Bundled

/-- The definition of `Term` in glossary documents. -/
def termSchema : Form :=
  record ["term", "definition"]
    [("term", ofType "string" []),
     ("definition", ofType "string" []),
     ("synonyms", listOf (ofType "string" [])),
     ("relatedTo", listOf (shared "AnyRef"))]

/-- The schema of documents of the type `glossary`. -/
def glossaryDocument : DocumentSchema where
  type := "glossary"
  title := "Glossary document"
  required := ["ubml"]
  multiplicity := "singleton"
  detectBy := ["terms", "glossary"]
  properties := commonProperties ++
    [("terms", listOf (own "Term"))]
  definitions :=
    [("Term", termSchema)]

end BusinessModel.Schema.Bundled
