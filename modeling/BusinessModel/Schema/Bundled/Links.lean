import BusinessModel.Schema.Bundled.Terms

/-!
The schema of links documents.
-/

namespace BusinessModel.Schema.Bundled

/-- The definition of `Link` in links documents. -/
def linkSchema : Form :=
  record ["from", "to"]
    [("from", shared "AnyRef"),
     ("to", shared "AnyRef"),
     ("kind", choice ["triggers", "feeds", "supports", "dependsOn", "measures"] []),
     ("description", ofType "string" [])]

/-- The schema of documents of the type `links`. -/
def linksDocument : DocumentSchema where
  type := "links"
  title := "Links document"
  required := ["ubml"]
  multiplicity := "multiple"
  detectBy := ["links"]
  properties := commonProperties ++
    [("links", listOf (own "Link"))]
  definitions :=
    [("Link", linkSchema)]

end BusinessModel.Schema.Bundled
