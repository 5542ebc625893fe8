import BusinessModel.Proofs.Yaml.Writing

/-!
Content that has been written, with the places where it stands: its events, its nodes, and what is
loaded for them. Reading makes these of one another, and only the places depend on the layout.
-/

namespace BusinessModel.Yaml

/-- Content with the places where its nodes and keys start. -/
inductive Placed where
  | scalar (value : Scalar) (place : Mark)
  | sequence (place : Mark) (items : List Placed)
  | mapping (place : Mark) (entries : List (String × Mark × Placed))

namespace Placed

/-- Where the content starts. -/
def place : Placed → Mark
  | scalar _ m | sequence m _ | mapping m _ => m

mutual

/-- The content without its places. -/
def content : Placed → Content
  | scalar s _ => .scalar s
  | sequence _ items => .sequence (contentOfItems items)
  | mapping _ entries => .mapping (contentOfEntries entries)

/-- Items without their places. -/
def contentOfItems : List Placed → List Content
  | [] => []
  | p :: rest => p.content :: contentOfItems rest

/-- Entries without their places. -/
def contentOfEntries : List (String × Mark × Placed) → List (String × Content)
  | [] => []
  | (key, _, p) :: rest => (key, p.content) :: contentOfEntries rest

end

/-- The event of a text in some style. -/
def textEvent (style : Style) (text : String) (m : Mark) : Event :=
  .scalar none none (style == .plain) text m

mutual

/-- The events of content. -/
def events (f : Format) : Placed → List Event
  | scalar s m => [textEvent (f.quotingOf s).style (scalarText .value s) m]
  | sequence m items => .sequenceStart none none m :: (eventsOfItems f items ++ [.sequenceEnd])
  | mapping m entries => .mappingStart none none m :: (eventsOfEntries f entries ++ [.mappingEnd])

/-- The events of items. -/
def eventsOfItems (f : Format) : List Placed → List Event
  | [] => []
  | p :: rest => p.events f ++ eventsOfItems f rest

/-- The events of entries. -/
def eventsOfEntries (f : Format) : List (String × Mark × Placed) → List Event
  | [] => []
  | (key, m, p) :: rest =>
    textEvent (Quoting.ofText none key).style key m :: (p.events f ++ eventsOfEntries f rest)

end

/-- The node of a text in some style. -/
def textNode (style : Style) (text : String) (m : Mark) : Node :=
  .scalar none (style.tag text) text m

mutual

/-- The node of content. -/
def node (f : Format) : Placed → Node
  | scalar s m => textNode (f.quotingOf s).style (scalarText .value s) m
  | sequence m items => .sequence none .sequence m (nodesOfItems f items)
  | mapping m entries => .mapping none .mapping m (nodesOfEntries f entries)

/-- The nodes of items. -/
def nodesOfItems (f : Format) : List Placed → List Node
  | [] => []
  | p :: rest => p.node f :: nodesOfItems f rest

/-- The nodes of entries. -/
def nodesOfEntries (f : Format) : List (String × Mark × Placed) → List (Node × Node)
  | [] => []
  | (key, m, p) :: rest =>
    (textNode (Quoting.ofText none key).style key m, p.node f) :: nodesOfEntries f rest

end

/-- What a text is loaded as when it is a key. -/
def key (text : String) : Key := ⟨text, .plain (.str text)⟩

mutual

/-- What content is loaded as. -/
def loaded : Placed → Loaded
  | scalar s _ => .scalar (.ofScalar s)
  | sequence m items => .sequence none (some m) (loadedItems items)
  | mapping m entries => .mapping none (some m) (loadedEntries entries)

/-- What items are loaded as. -/
def loadedItems : List Placed → List (Option Mark × Loaded)
  | [] => []
  | p :: rest => (some p.place, p.loaded) :: loadedItems rest

/-- What entries are loaded as. -/
def loadedEntries : List (String × Mark × Placed) → List (Key × Option (Mark × Mark) × Loaded)
  | [] => []
  | (text, m, p) :: rest => (key text, some (m, p.place), p.loaded) :: loadedEntries rest

end

end Placed

end BusinessModel.Yaml
