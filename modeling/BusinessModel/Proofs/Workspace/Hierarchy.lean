import BusinessModel.Proofs.Cycle.Search
import BusinessModel.Proofs.Identifier
import BusinessModel.Proofs.Workspace.Definition

/-!
The hierarchy of elements: a reference in a property for parents makes the element around it a child
of the one that it names, and one in a property for children makes it the parent. The elements that
are their own ancestors are reported by cycles, each once and from its smallest identifier on.
-/

namespace BusinessModel

open Schema

/-- The innermost element around a part of a document: the last key on the way to the part that is a
valid identifier. -/
def InnermostElement (ids : IdScheme) (above : List Segment) (owner : String) : Prop :=
  ids.isValid owner = true ∧ ∃ outer inner, above = outer ++ .key owner :: inner ∧
    ∀ key, .key key ∈ inner → ids.isValid key = false

/-- The piece of a pointer for a segment is a valid identifier only if the segment is a key that is
one, and then the piece is this key. -/
private theorem isValid_piece_iff {ids : IdScheme} (hwords : ids.HasWords) (s : Segment) :
    ids.isValid (Pointer.escape s.text) = true ↔
      ∃ key, s = .key key ∧ ids.isValid key = true ∧ Pointer.escape s.text = key := by
  cases s with
  | key name =>
    rw [Segment.text, hwords.isValid_escape]
    constructor
    · intro hvalid
      refine ⟨name, rfl, hvalid, hwords.escape_eq hvalid⟩
    · rintro ⟨key, heq, hvalid, -⟩
      cases heq
      exact hvalid
  | index n =>
    rw [Segment.text, hwords.isValid_escape, hwords.isValid_intText]
    simp

/-- The owner read back from a pointer is the innermost element around the entry. -/
theorem Document.owner?_eq_some_iff {ids : IdScheme} (hwords : ids.HasWords)
    (above : List Segment) (key owner : String) :
    owner? ids (Pointer.ofSegments (above ++ [.key key])) = some owner ↔
      InnermostElement ids above owner := by
  have hpieces : (Pointer.pieces (Pointer.ofSegments (above ++ [.key key]))).dropLast.reverse =
      (above.reverse.map fun s => Pointer.escape s.text) ++ [""] := by
    rw [Pointer.pieces_ofSegments, List.map_append, List.map_singleton, ← List.cons_append,
      List.dropLast_concat, List.reverse_cons, List.map_reverse]
  rw [owner?, hpieces, List.find?_append, List.find?_singleton, hwords.isValid_empty,
    if_neg Bool.false_ne_true, Option.or_none, List.find?_map, Option.map_eq_some_iff]
  constructor
  · rintro ⟨s, hfound, rfl⟩
    obtain ⟨hvalid, after, before, hsplit, hinner⟩ := List.find?_eq_some_iff_append.mp hfound
    obtain ⟨owner, rfl, hvalid, howner⟩ := (isValid_piece_iff hwords s).mp hvalid
    rw [howner]
    refine ⟨hvalid, before.reverse, after.reverse, ?_, fun key hkey => ?_⟩
    · rw [← List.reverse_reverse above, hsplit]
      simp
    · have hnot := hinner (.key key) (List.mem_reverse.mp hkey)
      simpa [hwords.isValid_escape, Segment.text] using hnot
  · rintro ⟨hvalid, outer, inner, rfl, hinner⟩
    refine ⟨.key owner, List.find?_eq_some_iff_append.mpr
      ⟨?_, inner.reverse, outer.reverse, ?_, ?_⟩, hwords.escape_eq hvalid⟩
    · simpa [hwords.isValid_escape, Segment.text] using hvalid
    · simp
    · intro s hs
      rw [Bool.not_eq_true', ← Bool.not_eq_true]
      intro hpiece
      obtain ⟨key, rfl, hkey, -⟩ := (isValid_piece_iff hwords s).mp hpiece
      rw [hinner key (List.mem_reverse.mp hs)] at hkey
      cases hkey

/-! ### Reports on cycles -/

namespace IdRegistry

/-- The error on a cycle: it stands at the definition of the first element and is related to those
of the others. -/
def ReportsCycle (r : IdRegistry) (cycle : List String) (error : Diagnostic) : Prop :=
  ∃ (first : Definition) (more : List Definition), cycle = (first :: more).map (·.id) ∧
    (∀ x ∈ first :: more, x ∈ r.defined) ∧
    error = { code := .hierarchyCycle
              message := "Hierarchy cycle detected: " ++ " -> ".intercalate (cycle ++ [first.id])
              filepath := some first.filepath, path := some first.path, span := first.span
              related := more.map Definition.related }

theorem exists_definition?_eq_some {r : IdRegistry} {id : String} (h : r.isDefined id = true) :
    ∃ x, r.definition? id = some x := Option.isSome_iff_exists.mp h

private theorem map_id_of_forall₂ {r : IdRegistry} {ids : List String} {xs : List Definition}
    (h : List.Forall₂ (fun id x => r.definition? id = some x) ids xs) :
    ids = xs.map (·.id) ∧ ∀ x ∈ xs, x ∈ r.defined := by
  induction h with
  | nil => exact ⟨rfl, by simp⟩
  | @cons id x ids xs hx _ ih =>
    obtain ⟨hids, hdefined⟩ := ih
    refine ⟨by rw [List.map_cons, definition?_eq_some_id hx, ← hids], fun y hy => ?_⟩
    rcases List.mem_cons.mp hy with rfl | hy
    · exact List.mem_of_find?_eq_some hx
    · exact hdefined y hy

/-- A cycle of defined elements is reported. -/
theorem exists_cycleError {r : IdRegistry} {cycle : List String} (hne : cycle ≠ [])
    (hdefined : ∀ id ∈ cycle, r.isDefined id = true) :
    ∃ error, r.cycleError cycle = .ok error ∧ r.ReportsCycle cycle error := by
  obtain ⟨xs, hfound⟩ : ∃ xs, List.Forall₂ (fun id x => r.definition? id = some x) cycle xs :=
    exists_forall₂ fun id hid => exists_definition?_eq_some (hdefined id hid)
  obtain ⟨hids, hmem⟩ := map_id_of_forall₂ hfound
  cases xs with
  | nil => exact absurd hids hne
  | cons first more =>
    refine ⟨_, ?_, first, more, hids, hmem, rfl⟩
    rw [cycleError, (@mapM_eq_ok_iff _ _ _ _ cycle (first :: more)).mpr]
    · simp [bind, Except.bind, pure, Except.pure, hids]
    · exact hfound.imp fun id x hx => by rw [hx]

end IdRegistry

namespace Workspace

/-! ### The hierarchy in documents -/

/-- In an element, and in no other inside it, a property for references names a defined one. -/
def RefersTo (m : Metadata) (documents : List Document) (owner field id : String) : Prop :=
  ∃ place d above e i path, EntryAt documents place d above e ∧ e.key = field ∧
    m.isReferenceField field = true ∧ TextAt e i path id ∧ m.ids.isValid id = true ∧
    InnermostElement m.ids above owner ∧
      ∃ place' x, DefinitionAt m.ids documents place' x ∧ x.id = id

/-- The relation of a child to its parent that the references of documents state. A property that is
both for parents and for children counts as one for parents. -/
inductive ChildOf (m : Metadata) (documents : List Document) : String → String → Prop where
  | parent {owner field id : String} (hrefers : RefersTo m documents owner field id)
      (hfield : m.isParentField field = true) : ChildOf m documents owner id
  | child {owner field id : String} (hrefers : RefersTo m documents owner field id)
      (hnot : m.isParentField field = false) (hfield : m.isChildField field = true) :
      ChildOf m documents id owner

/-- The edges of the graph in which the check searches for cycles. -/
def hierarchyEdges (m : Metadata) (documents : List Document) : List Edge :=
  (register m documents).2.references.filterMap (Reference.edge? m (register m documents).2)

/-- Only defined elements stand in the hierarchy; an innermost element is, since it is a key. -/
theorem ChildOf.isDefined {m : Metadata} {documents : List Document} {child parent : String}
    (h : ChildOf m documents child parent) :
    (register m documents).2.isDefined child = true ∧
      (register m documents).2.isDefined parent = true := by
  have hrefers {owner field id : String} (hrefers : RefersTo m documents owner field id) :
      (register m documents).2.isDefined owner = true ∧
        (register m documents).2.isDefined id = true := by
    obtain ⟨place, d, above, e, i, path, hat, -, -, -, -, ⟨hvalid, outer, inner, rfl, -⟩, hid⟩ :=
      hrefers
    obtain ⟨place', e', hat', rfl⟩ := hat.exists_enclosing
    rw [isDefined_register_iff, isDefined_register_iff]
    exact ⟨⟨place', _, ⟨d, outer, e', hat', hvalid, rfl⟩, rfl⟩, hid⟩
  cases h with
  | parent h _ => exact hrefers h
  | child h _ _ => exact (hrefers h).symm

private theorem edge?_eq_some_iff {m : Metadata} {registry : IdRegistry} {r : Reference}
    {edge : Edge} :
    r.edge? m registry = some edge ↔ ∃ owner, r.owner = some owner ∧
      registry.isDefined r.id = true ∧
        (m.isParentField r.field = true ∧ edge = ⟨owner, r.id⟩ ∨
          m.isParentField r.field = false ∧ m.isChildField r.field = true ∧
            edge = ⟨r.id, owner⟩) := by
  unfold Reference.edge?
  cases howner : r.owner with
  | none => simp
  | some owner =>
    cases registry.isDefined r.id <;> cases m.isParentField r.field <;>
      cases m.isChildField r.field <;> simp [eq_comm]

/-- The edges of the graph are those from children to their parents. -/
theorem joined_hierarchyEdges_iff {m : Metadata} (hwords : m.ids.HasWords)
    (documents : List Document) (child parent : String) :
    Cycle.Joined (hierarchyEdges m documents) child parent ↔ ChildOf m documents child parent := by
  rw [Cycle.Joined, hierarchyEdges, List.mem_filterMap]
  simp only [edge?_eq_some_iff, isDefined_register_iff]
  have hmem (r : Reference) : r ∈ (register m documents).2.references ↔
      ∃ site, ReferenceAt m documents site r :=
    (references_enumerates m documents).mem_iff r
  simp only [hmem]
  constructor
  · rintro ⟨r, ⟨site, d, above, e, path, text, hat, hfield, htext, hvalid, rfl⟩, owner, howner, hid,
      hedge⟩
    have hrefers : RefersTo m documents owner e.key text := by
      refine ⟨site.entry, d, above, e, site.item, path, hat, rfl, hfield, htext, hvalid, ?_, hid⟩
      rw [← Document.owner?_eq_some_iff hwords above e.key, ← hat.path_eq]
      exact howner
    rcases hedge with ⟨hparent, heq⟩ | ⟨hnot, hchild, heq⟩
    · cases heq
      exact .parent hrefers hparent
    · cases heq
      exact .child hrefers hnot hchild
  · have hreference {owner field id : String} (hrefers : RefersTo m documents owner field id) :
        ∃ r, (∃ site, ReferenceAt m documents site r) ∧ r.owner = some owner ∧ r.field = field ∧
          r.id = id ∧ ∃ place x, DefinitionAt m.ids documents place x ∧ x.id = id := by
      obtain ⟨place, d, above, e, i, path, hat, rfl, hfield, htext, hvalid, howner, hid⟩ := hrefers
      refine ⟨_, ⟨⟨place, i⟩, d, above, e, path, id, hat, hfield, htext, hvalid, rfl⟩, ?_, rfl, rfl,
        hid⟩
      rw [← Document.owner?_eq_some_iff hwords above e.key, ← hat.path_eq] at howner
      exact howner
    rintro (⟨hrefers, hfield⟩ | ⟨hrefers, hnot, hfield⟩)
    · obtain ⟨r, hr, howner, rfl, rfl, hid⟩ := hreference hrefers
      exact ⟨r, hr, _, howner, hid, Or.inl ⟨hfield, rfl⟩⟩
    · obtain ⟨r, hr, howner, rfl, rfl, hid⟩ := hreference hrefers
      exact ⟨r, hr, _, howner, hid, Or.inr ⟨hnot, hfield, rfl⟩⟩

/-- A report whose errors on the hierarchy are exactly the elementary cycles of the documents. -/
structure HierarchyExact (m : Metadata) (documents : List Document) (options : ReferenceOptions)
    (report : ReferenceReport) : Prop where
  /-- Only defined elements stand in the hierarchy. -/
  defined : ∀ child parent, ChildOf m documents child parent →
    report.registry.isDefined child = true ∧ report.registry.isDefined parent = true
  /-- The errors report the cycles, one each, in the order of their vertices. It is the order of the
  cycles from any search, each written from its smallest vertex on. -/
  cycles : options.checkHierarchy = true →
    ∃ cycles, Cycle.ListsCycles (ChildOf m documents) cycles ∧
      List.Forall₂ report.registry.ReportsCycle cycles
        (report.errors.filter (·.code == .hierarchyCycle)) ∧
      ∀ found, Cycle.FindsCycles (ChildOf m documents) found →
        ((found.map Cycle.fromSmallest).mergeSort fun a b => a ≤ b) = cycles
  /-- There is no error exactly if no element is its own ancestor. -/
  acyclic : options.checkHierarchy = true →
    (report.errors.filter (·.code == .hierarchyCycle) = [] ↔
      ∀ id, ¬ Relation.TransGen (ChildOf m documents) id id)
  /-- There is no error if the check does not ask for them. -/
  unchecked : options.checkHierarchy = false →
    report.errors.filter (·.code == .hierarchyCycle) = []

private theorem hierarchyEdges_listsCycles {m : Metadata} (hwords : m.ids.HasWords)
    (documents : List Document) :
    Cycle.ListsCycles (ChildOf m documents) (Cycle.all (hierarchyEdges m documents)) := by
  have hjoined : Cycle.Joined (hierarchyEdges m documents) = ChildOf m documents :=
    funext fun child => funext fun parent =>
      propext (joined_hierarchyEdges_iff hwords documents child parent)
  exact hjoined ▸ Cycle.all_listsCycles (hierarchyEdges m documents)

/-- The search for cycles succeeds, since it meets only defined elements. -/
theorem exists_cycleErrors {m : Metadata} (hwords : m.ids.HasWords) (documents : List Document) :
    ∃ errors, (register m documents).2.cycleErrors m = .ok errors ∧
      List.Forall₂ (register m documents).2.ReportsCycle
        (Cycle.all (hierarchyEdges m documents)) errors := by
  have hlists := hierarchyEdges_listsCycles hwords documents
  obtain ⟨errors, herrors⟩ : ∃ errors, List.Forall₂ (fun cycle error =>
      (register m documents).2.cycleError cycle = .ok error ∧
        (register m documents).2.ReportsCycle cycle error)
      (Cycle.all (hierarchyEdges m documents)) errors := by
    refine exists_forall₂ fun cycle hcycle => ?_
    obtain ⟨helementary, -⟩ := hlists.elementary cycle hcycle
    refine IdRegistry.exists_cycleError helementary.ne_nil fun id hid => ?_
    obtain ⟨next, hnext⟩ := helementary.exists_next_of_mem hid
    exact hnext.isDefined.1
  exact ⟨errors, mapM_eq_ok_iff.mpr (herrors.imp fun _ _ h => h.1), herrors.imp fun _ _ h => h.2⟩

/-- Over words of capital letters the search for cycles succeeds. -/
theorem exists_hierarchyErrors {m : Metadata} (hwords : m.ids.HasWords) (documents : List Document)
    (options : ReferenceOptions) : ∃ cycles, hierarchyErrors m documents options = .ok cycles := by
  obtain ⟨errors, herrors, _⟩ := exists_cycleErrors hwords documents
  unfold hierarchyErrors
  split
  · exact ⟨errors, herrors⟩
  · exact ⟨[], rfl⟩

/-- Over words of capital letters the check never fails, and its errors on the hierarchy are the
elementary cycles of the relation from children to parents: each is reported once, from its smallest
identifier on, and in lexicographic order. -/
theorem checkReferences_reports_elementary_cycles {m : Metadata} (hwords : m.ids.HasWords)
    (documents : List Document) (options : ReferenceOptions) :
    ∃ report, checkReferences m documents options = .ok report ∧
      HierarchyExact m documents options report := by
  have hlists := hierarchyEdges_listsCycles hwords documents
  obtain ⟨errors, herrors, hreports⟩ := exists_cycleErrors hwords documents
  have hdefined (child parent : String) (h : ChildOf m documents child parent) := h.isDefined
  cases hasked : options.checkHierarchy with
  | true =>
    have hhierarchy : hierarchyErrors m documents options = .ok errors := by
      rw [hierarchyErrors, hasked, if_pos rfl, herrors]
    refine ⟨reportWith m documents options errors, by rw [checkReferences_eq, hhierarchy]; rfl, ?_⟩
    have hfilter : (reportWith m documents options errors).errors.filter
        (·.code == .hierarchyCycle) = errors :=
      filter_hierarchyCycle (code_of_hierarchyErrors hhierarchy)
    refine ⟨hdefined, fun _ => ⟨_, hlists, ?_, fun found => hlists.mergeSort_fromSmallest⟩,
      fun _ => ?_, by simp [hasked]⟩
    · rw [hfilter]
      exact hreports
    · rw [hfilter, ← hlists.eq_nil_iff, ← List.length_eq_zero_iff, ← hreports.length_eq,
        List.length_eq_zero_iff]
  | false =>
    have hhierarchy : hierarchyErrors m documents options = .ok [] := by
      rw [hierarchyErrors, hasked, if_neg Bool.false_ne_true]
    refine ⟨reportWith m documents options [], by rw [checkReferences_eq, hhierarchy]; rfl, ?_⟩
    refine ⟨hdefined, by simp [hasked], by simp [hasked], fun _ => ?_⟩
    exact filter_hierarchyCycle (code_of_hierarchyErrors hhierarchy)

/-- A process that is its own parent is reported. -/
theorem checkReferences_reports_own_parent :
    ∃ report, checkReferences
        { ids := { kinds := [("PR", "process")] }, referenceFields := [("parent", ["PR"])] }
        [{ content := .mapping [("PR00001", .mapping [("parent", .scalar (.str "PR00001"))])] }]
        {} = .ok report ∧
      report.errors.filter (·.code == .hierarchyCycle) ≠ [] := by
  have hwords : ({ kinds := [("PR", "process")] } : IdScheme).HasWords :=
    ⟨by decide, by decide, by decide, by decide⟩
  have hvalid : ({ kinds := [("PR", "process")] } : IdScheme).isValid "PR00001" = true :=
    (IdScheme.isValid_iff hwords _).mpr
      ⟨("PR", "process"), by decide, "00001".toList, by decide, by decide, Or.inl (by decide)⟩
  obtain ⟨report, hok, hexact⟩ := checkReferences_reports_elementary_cycles
    (m := { ids := { kinds := [("PR", "process")] }, referenceFields := [("parent", ["PR"])] })
    hwords
    [{ content := .mapping [("PR00001", .mapping [("parent", .scalar (.str "PR00001"))])] }] {}
  -- The process is defined at the first entry, and the entry inside it names it as the parent.
  have hrefers : RefersTo
      { ids := { kinds := [("PR", "process")] }, referenceFields := [("parent", ["PR"])] }
      [{ content := .mapping [("PR00001", .mapping [("parent", .scalar (.str "PR00001"))])] }]
      "PR00001" "parent" "PR00001" :=
    ⟨[0, 0, 0], _, [.key "PR00001"], ⟨"parent", Pointer.ofSegments
      [.key "PR00001", .key "parent"], .scalar (.str "PR00001")⟩, 0, _,
      .intro rfl (.entry rfl (.entry rfl (.here _))) rfl, rfl, rfl, .scalar rfl rfl, hvalid,
      ⟨hvalid, [], [], rfl, by simp⟩, [0, 0], _, ⟨_, [], ⟨"PR00001", Pointer.ofSegments
        [.key "PR00001"], _⟩, .intro rfl (.entry rfl (.here _)) rfl, hvalid, rfl⟩, rfl⟩
  exact ⟨report, hok, fun hnone =>
    (hexact.acyclic rfl).mp hnone "PR00001" (.single (.parent hrefers rfl))⟩

end Workspace

end BusinessModel
