import BusinessModel.Schema.Bundled.Terms

/-!
The schema of views documents.
-/

namespace BusinessModel.Schema.Bundled

/-- The definition of `View` in views documents. -/
def viewSchema : Form :=
  record ["name"]
    [("name", ofType "string" []),
     ("kind", choice ["swimlane", "hierarchy", "matrix", "map"] []),
     ("audience", ofType "string" []),
     ("includes", listOf (shared "AnyRef"))]

/-- The schema of documents of the type `views`. -/
def viewsDocument : DocumentSchema where
  type := "views"
  title := "Views document"
  required := ["ubml"]
  multiplicity := "multiple"
  detectBy := ["views"]
  properties := commonProperties ++
    [("views", tableOf "ViewRef" "View")]
  definitions :=
    [("View", viewSchema)]

end BusinessModel.Schema.Bundled
