import BusinessModel.Schema.Bundled.Terms

/-!
The schema of actors documents.
-/

namespace BusinessModel.Schema.Bundled

/-- The definition of `Actor` in actors documents. -/
def actorSchema : Form :=
  record ["name", "type"]
    [("name", ofType "string" [("examples", .texts ["Accounts Payable Clerk"])]),
     ("type", shared "ActorType"),
     ("kind", shared "ActorKind"),
     ("description", ofType "string" []),
     ("parent", shared "ActorRef"),
     ("members", listOf (shared "ActorRef")),
     ("skills", listOf (shared "SkillRef")),
     ("location", shared "LocationRef"),
     ("tags", shared "Tags")]

/-- The definition of `Persona` in actors documents. -/
def personaSchema : Form :=
  record ["name"]
    [("name", ofType "string" []),
     ("actor", shared "ActorRef"),
     ("goals", listOf (ofType "string" []))]

/-- The definition of `Skill` in actors documents. -/
def skillSchema : Form :=
  record ["name"] [("name", ofType "string" []), ("description", ofType "string" [])]

/-- The definition of `ResourcePool` in actors documents. -/
def resourcePoolSchema : Form :=
  record ["name"]
    [("name", ofType "string" []),
     ("capacity", ofType "integer" [("minimum", .int 0)]),
     ("members", listOf (shared "ActorRef"))]

/-- The definition of `Equipment` in actors documents. -/
def equipmentSchema : Form :=
  record ["name"]
    [("name", ofType "string" []),
     ("owner", shared "ActorRef"),
     ("location", shared "LocationRef")]

/-- The schema of documents of the type `actors`. -/
def actorsDocument : DocumentSchema where
  type := "actors"
  title := "Actors document"
  required := ["ubml"]
  multiplicity := "catalog"
  detectBy := ["actors", "skills", "personas", "resourcePools"]
  properties := commonProperties ++
    [("actors", tableOf "ActorRef" "Actor"),
     ("personas", tableOf "PersonaRef" "Persona"),
     ("skills", tableOf "SkillRef" "Skill"),
     ("resourcePools", tableOf "ResourcePoolRef" "ResourcePool"),
     ("equipment", tableOf "EquipmentRef" "Equipment")]
  definitions :=
    [("Actor", actorSchema), ("Persona", personaSchema), ("Skill", skillSchema),
     ("ResourcePool", resourcePoolSchema), ("Equipment", equipmentSchema)]

end BusinessModel.Schema.Bundled
