import BusinessModel.Schema.Bundled.Terms

/-!
The schema of strategy documents.
-/

namespace BusinessModel.Schema.Bundled

/-- The definition of `ValueStream` in strategy documents. -/
def valueStreamSchema : Form :=
  record ["name"]
    [("name", ofType "string" []),
     ("description", ofType "string" []),
     ("owner", shared "ActorRef"),
     ("processes", listOf (shared "ProcessRef")),
     ("capabilities", listOf (shared "CapabilityRef"))]

/-- The definition of `Capability` in strategy documents. -/
def capabilitySchema : Form :=
  record ["name"]
    [("name", ofType "string" []),
     ("description", ofType "string" []),
     ("owner", shared "ActorRef"),
     ("parent", shared "CapabilityRef"),
     ("children", listOf (shared "CapabilityRef")),
     ("maturity", ofType "integer" [("minimum", .int 1), ("maximum", .int 5)])]

/-- The definition of `Offering` in strategy documents. -/
def offeringSchema : Form :=
  record ["name"]
    [("name", ofType "string" []),
     ("description", ofType "string" []),
     ("owner", shared "ActorRef"),
     ("valueStream", shared "ValueStreamRef")]

/-- The definition of `Portfolio` in strategy documents. -/
def portfolioSchema : Form :=
  record ["name"]
    [("name", ofType "string" []),
     ("owner", shared "ActorRef"),
     ("products", listOf (shared "ProductRef")),
     ("services", listOf (shared "ServiceRef"))]

/-- The schema of documents of the type `strategy`. -/
def strategyDocument : DocumentSchema where
  type := "strategy"
  title := "Strategy document"
  required := ["ubml"]
  multiplicity := "singleton"
  detectBy := ["valueStreams", "capabilities", "products", "services", "portfolios"]
  properties := commonProperties ++
    [("valueStreams", tableOf "ValueStreamRef" "ValueStream"),
     ("capabilities", tableOf "CapabilityRef" "Capability"),
     ("products", tableOf "ProductRef" "Offering"),
     ("services", tableOf "ServiceRef" "Offering"),
     ("portfolios", tableOf "PortfolioRef" "Portfolio")]
  definitions :=
    [("ValueStream", valueStreamSchema), ("Capability", capabilitySchema),
     ("Offering", offeringSchema), ("Portfolio", portfolioSchema)]

end BusinessModel.Schema.Bundled
