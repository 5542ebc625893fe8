import BusinessModel.Proofs.Workspace.Hierarchy
import BusinessModel.Proofs.Workspace.Multiplicity
import BusinessModel.Proofs.Workspace.Reference

/-!
The order of the documents matters only for which of several definitions, or of several documents of
one type, counts as the first. Apart from that the check finds the same in every order.
-/

namespace BusinessModel

open Schema

namespace IdRegistry

/-- Of the definitions of an identifier all but the first are reported. -/
theorem countP_defineAll {r : IdRegistry} {xs : List Definition}
    (hpath : ∀ x ∈ xs, Pointer.last? x.path = some x.id) (id : String) :
    (r.defineAll xs).1.countP (fun e => e.path.bind Pointer.last? == some id) =
      xs.countP (·.id == id) - (if r.isDefined id then 0 else 1) := by
  induction xs generalizing r with
  | nil => simp [defineAll]
  | cons x rest ih =>
    have hrest := fun y hy => hpath y (List.mem_cons_of_mem _ hy)
    have hlast := hpath x List.mem_cons_self
    rw [defineAll, define]
    cases hx : r.definition? x.id with
    | some first =>
      have hdefined : r.isDefined x.id = true := by rw [isDefined, hx]; rfl
      have hsubject : (x.duplicateError first).path.bind Pointer.last? = some x.id := hlast
      dsimp only
      rw [List.countP_cons, hsubject, ih hrest, List.countP_cons]
      by_cases hid : x.id = id
      · simp [← hid, hdefined]
      · simp [hid]
    | none =>
      dsimp only
      rw [ih hrest, List.countP_cons, isDefined, definition?_concat]
      by_cases hid : x.id = id
      · simp [← hid, isDefined, hx]
      · rw [if_neg hid, Option.or_none, ← isDefined]
        simp [hid]

/-- Definitions of different new identifiers are all recorded. -/
theorem defineAll_of_nodup {r : IdRegistry} {xs : List Definition}
    (hnew : ∀ x ∈ xs, r.definition? x.id = none) (hnodup : (xs.map (·.id)).Nodup) :
    r.defineAll xs = ([], { r with defined := r.defined ++ xs }) := by
  induction xs generalizing r with
  | nil => simp [defineAll]
  | cons x rest ih =>
    rw [List.map_cons, List.nodup_cons] at hnodup
    rw [defineAll, define, hnew x List.mem_cons_self]
    dsimp only
    rw [ih (fun y hy => ?_) hnodup.2, List.append_assoc, List.singleton_append]
    have hid : x.id ≠ y.id := fun heq => hnodup.1 (List.mem_map.mpr ⟨y, hy, heq.symm⟩)
    rw [definition?_concat, hnew y (List.mem_cons_of_mem _ hy), if_neg hid]
    rfl

/-- Among definitions of different identifiers each is found by its own. -/
theorem definition?_eq_some_iff {r : IdRegistry} (hnodup : (r.defined.map (·.id)).Nodup)
    {id : String} {x : Definition} :
    r.definition? id = some x ↔ x ∈ r.defined ∧ x.id = id := by
  constructor
  · intro h
    exact ⟨List.mem_of_find?_eq_some h, definition?_eq_some_id h⟩
  · rintro ⟨hx, rfl⟩
    obtain ⟨y, hy⟩ := exists_definition?_eq_some (isDefined_iff.mpr ⟨x, hx, rfl⟩)
    have hmem := List.mem_of_find?_eq_some hy
    rw [hy, List.inj_on_of_nodup_map hnodup hmem hx (definition?_eq_some_id hy)]

private def foundOr (r : IdRegistry) (id : String) : Except UnknownOwner Definition :=
  match r.definition? id with
  | some x => .ok x
  | none => .error ⟨id⟩

/-- The message on a cycle depends only on the cycle. -/
private theorem map_message_cycleError (r : IdRegistry) (cycle : List String) :
    (r.cycleError cycle).map (·.message) =
      (cycle.mapM fun id => if r.isDefined id then Except.ok () else .error ⟨id⟩).map fun _ =>
        "Hierarchy cycle detected: " ++ " -> ".intercalate (cycle ++ cycle.take 1) := by
  have hfound (id : String) : (if r.isDefined id then Except.ok () else .error ⟨id⟩) =
      (r.foundOr id).map fun _ => () := by
    unfold foundOr isDefined
    cases r.definition? id <;> rfl
  simp only [hfound, ← map_mapM]
  change Except.map _ (cycle.mapM r.foundOr >>= _) = _
  cases cycle.mapM r.foundOr <;> rfl

/-! ### What depends on the registry only by which identifiers are defined -/

section Congr

variable {m : Metadata} {r r' : IdRegistry} (hdefined : ∀ id, r.isDefined id = r'.isDefined id)

include hdefined

theorem errors_congr : Reference.errors m r = Reference.errors m r' := by
  funext ref
  unfold Reference.errors
  rw [hdefined]

theorem edge?_congr : Reference.edge? m r = Reference.edge? m r' := by
  funext ref
  unfold Reference.edge?
  split
  · rfl
  · rw [hdefined]

/-- Registries that define the same identifiers report a cycle with the same message, or fail at the
same element. -/
theorem cycleError_message_congr (cycle : List String) :
    (r.cycleError cycle).map (·.message) = (r'.cycleError cycle).map (·.message) := by
  rw [map_message_cycleError, map_message_cycleError]
  simp only [hdefined]

private theorem all_hierarchy_congr (hreferences : r.references.Perm r'.references) :
    Cycle.all (r.references.filterMap (Reference.edge? m r)) =
      Cycle.all (r'.references.filterMap (Reference.edge? m r')) := by
  refine Cycle.all_congr fun e => ?_
  rw [edge?_congr hdefined]
  exact (hreferences.filterMap _).mem_iff

theorem cycleErrors_message_congr (hreferences : r.references.Perm r'.references) :
    (r.cycleErrors m).map (List.map (·.message)) =
      (r'.cycleErrors m).map (List.map (·.message)) := by
  rw [cycleErrors, cycleErrors, map_mapM, map_mapM, all_hierarchy_congr hdefined hreferences]
  simp only [cycleError_message_congr hdefined]

end Congr

/-- Registries with the same definitions have the same errors on cycles. -/
theorem cycleErrors_congr {m : Metadata} {r r' : IdRegistry}
    (hdefinition : ∀ id, r.definition? id = r'.definition? id)
    (hreferences : r.references.Perm r'.references) : r.cycleErrors m = r'.cycleErrors m := by
  have hdefined (id : String) : r.isDefined id = r'.isDefined id := by
    rw [isDefined, isDefined, hdefinition]
  have herror : r.cycleError = r'.cycleError := by
    funext cycle
    unfold cycleError
    simp only [hdefinition]
  rw [cycleErrors, cycleErrors, all_hierarchy_congr hdefined hreferences, herror]

end IdRegistry

namespace Workspace

/-! ### What to compare of two reports -/

/-- No two entries have the same identifier as their key. -/
def DefinedOnce (ids : IdScheme) (documents : List Document) : Prop :=
  ∀ place place' x x', DefinitionAt ids documents place x → DefinitionAt ids documents place' x' →
    x.id = x'.id → place = place'

/-- No two documents are of a type of which there may be only one. -/
def SingletonsOnce (m : Metadata) (documents : List Document) : Prop :=
  ∀ type, m.multiplicity type = .singleton → documents.countP (·.type == some type) ≤ 1

/-- Reports on the same documents in two orders that find the same, apart from which definition or
document counts as the first. -/
structure SameFindings (m : Metadata) (documents documents' : List Document)
    (options : ReferenceOptions) (report report' : ReferenceReport) : Prop where
  verdict : report.errors = [] ↔ report'.errors = []
  defined : ∀ id, report.registry.isDefined id = report'.registry.isDefined id
  undefined : (report.errors.filter (·.code == .undefinedReference)).Perm
    (report'.errors.filter (·.code == .undefinedReference))
  wrongType : (report.errors.filter (·.code == .wrongReferenceType)).Perm
    (report'.errors.filter (·.code == .wrongReferenceType))
  /-- As many errors stand at keys that are the same identifier. -/
  duplicates : ∀ id, (report.errors.filter (·.code == .duplicateId)).countP
      (fun e => e.path.bind Pointer.last? == some id) =
    (report'.errors.filter (·.code == .duplicateId)).countP
      (fun e => e.path.bind Pointer.last? == some id)
  unused : ∀ message,
    message ∈ report.warnings.map (·.message) ↔ message ∈ report'.warnings.map (·.message)
  /-- As many documents repeat each type, if this is checked. -/
  repeated : ∃ repeats repeats',
    report.errors.filter (·.code == .multipleSingleton) =
      (if options.checkMultiplicity then repeats.map Repeat.error else []) ∧
    report'.errors.filter (·.code == .multipleSingleton) =
      (if options.checkMultiplicity then repeats'.map Repeat.error else []) ∧
    RepeatsExact m documents repeats ∧ RepeatsExact m documents' repeats' ∧
    ∀ type, repeats.countP (·.type == type) = repeats'.countP (·.type == type)
  cycles : (report.errors.filter (·.code == .hierarchyCycle)).map (·.message) =
    (report'.errors.filter (·.code == .hierarchyCycle)).map (·.message)
  /-- If nothing is first among several, nothing depends on the order. -/
  unambiguous : DefinedOnce m.ids documents → SingletonsOnce m documents →
    report.errors.Perm report'.errors ∧ report.warnings.Perm report'.warnings

/-- Checks of the same documents in two orders that both fail at the same element, or both report,
and the reports find the same. -/
inductive SameOutcome (m : Metadata) (documents documents' : List Document)
    (options : ReferenceOptions) :
    Except UnknownOwner ReferenceReport → Except UnknownOwner ReferenceReport → Prop where
  | failed (owner : UnknownOwner) :
      SameOutcome m documents documents' options (.error owner) (.error owner)
  | reported {report report' : ReferenceReport}
      (h : SameFindings m documents documents' options report report') :
      SameOutcome m documents documents' options (.ok report) (.ok report')

/-! ### The stages in two orders -/

/-- A definition stands at the entry of its key. -/
theorem DefinitionAt.last?_path {ids : IdScheme} {documents : List Document} {place : List Nat}
    {x : Definition} (h : DefinitionAt ids documents place x) :
    Pointer.last? x.path = some x.id := by
  obtain ⟨d, above, e, hat, -, rfl⟩ := h
  dsimp only
  rw [hat.path_eq, Pointer.last?_ofSegments_concat, Segment.text]

theorem nodup_of_definedOnce {ids : IdScheme} {documents : List Document}
    (honce : DefinedOnce ids documents) :
    ((documents.flatMap (Document.definitions ids)).map (·.id)).Nodup := by
  exact (definitions_enumerates ids documents).nodup_map fun place x place' y => honce place place' x y

section Orders

variable {m : Metadata} {documents documents' : List Document}
  (hperm : documents.Perm documents')

include hperm

theorem isDefined_register_perm (id : String) :
    (register m documents).2.isDefined id = (register m documents').2.isDefined id := by
  have hsome (documents : List Document) : (register m documents).2.isDefined id = true ↔
      ∃ x ∈ documents.flatMap (Document.definitions m.ids), x.id = id := by
    rw [isDefined_register_iff]
    simp only [(definitions_enumerates m.ids documents).mem_iff]
    constructor
    · rintro ⟨place, x, hx, hid⟩
      exact ⟨x, ⟨place, hx⟩, hid⟩
    · rintro ⟨x, ⟨place, hx⟩, hid⟩
      exact ⟨place, x, hx, hid⟩
  rw [Bool.eq_iff_iff, hsome, hsome]
  simp only [(hperm.flatMap_right (Document.definitions m.ids)).mem_iff]

theorem references_register_perm :
    (register m documents).2.references.Perm (register m documents').2.references :=
  hperm.flatMap_right _

/-- The references have the same errors. -/
theorem referenceErrors_perm :
    ((register m documents).2.references.flatMap
      (Reference.errors m (register m documents).2)).Perm
    ((register m documents').2.references.flatMap
      (Reference.errors m (register m documents').2)) := by
  rw [IdRegistry.errors_congr (isDefined_register_perm hperm)]
  exact (references_register_perm hperm).flatMap_right _

theorem countP_duplicates_perm (id : String) :
    (register m documents).1.countP (fun e => e.path.bind Pointer.last? == some id) =
      (register m documents').1.countP (fun e => e.path.bind Pointer.last? == some id) := by
  have hcount (documents : List Document) :
      (register m documents).1.countP (fun e => e.path.bind Pointer.last? == some id) =
        (documents.flatMap (Document.definitions m.ids)).countP (·.id == id) - 1 := by
    refine (IdRegistry.countP_defineAll (r := {}) (fun x hx => ?_) id).trans ?_
    · obtain ⟨place, hx⟩ := ((definitions_enumerates m.ids documents).mem_iff x).mp hx
      exact hx.last?_path
    · simp [IdRegistry.isDefined, IdRegistry.definition?]
  rw [hcount, hcount, (hperm.flatMap_right (Document.definitions m.ids)).countP_eq]

theorem duplicates_eq_nil_perm :
    (register m documents).1 = [] ↔ (register m documents').1 = [] := by
  have hnil (documents : List Document) : (register m documents).1 = [] ↔
      ∀ id, (register m documents).1.countP
        (fun e => e.path.bind Pointer.last? == some id) = 0 := by
    constructor
    · intro hnone id
      rw [hnone, List.countP_nil]
    · intro hnone
      rw [List.eq_nil_iff_forall_not_mem]
      intro error herror
      obtain ⟨place, x, place', first, hx, -, -, -, rfl⟩ :=
        ((register_definitionsExact m documents).reported.mem_iff error).mp herror
      have hnot := List.countP_eq_zero.mp (hnone x.id) _ herror
      exact hnot (beq_iff_eq.mpr hx.last?_path)
  rw [hnil, hnil]
  simp only [countP_duplicates_perm hperm]

theorem unusedMessages_perm (message : String) :
    message ∈ (register m documents).2.unusedWarnings.map (·.message) ↔
      message ∈ (register m documents').2.unusedWarnings.map (·.message) := by
  have hmessage (documents : List Document) :
      message ∈ (register m documents).2.unusedWarnings.map (·.message) ↔
        ∃ id, (register m documents).2.isDefined id = true ∧
          (∀ r ∈ (register m documents).2.references, r.id ≠ id) ∧
            message = "ID \"" ++ id ++ "\" is defined but never referenced" := by
    rw [IdRegistry.unusedWarnings, List.map_map, List.mem_map]
    simp only [List.mem_filter, IdRegistry.isEmpty_referencesTo_iff, IdRegistry.isDefined_iff]
    constructor
    · rintro ⟨x, ⟨hx, hnone⟩, rfl⟩
      exact ⟨x.id, ⟨x, hx, rfl⟩, hnone, rfl⟩
    · rintro ⟨id, ⟨x, hx, rfl⟩, hnone, rfl⟩
      exact ⟨x, ⟨hx, hnone⟩, rfl⟩
  rw [hmessage, hmessage]
  simp only [isDefined_register_perm hperm, (references_register_perm hperm).mem_iff]

/-- As many documents repeat each type. -/
theorem multiplicityErrors_perm (hserials : (documents.map (·.serial)).Nodup) :
    ∃ repeats repeats', multiplicityErrors m documents [] = repeats.map Repeat.error ∧
      multiplicityErrors m documents' [] = repeats'.map Repeat.error ∧
      RepeatsExact m documents repeats ∧ RepeatsExact m documents' repeats' ∧
      ∀ type, repeats.countP (·.type == type) = repeats'.countP (·.type == type) := by
  obtain ⟨repeats, herrors, hexact⟩ := multiplicityErrors_exact (m := m) hserials
  obtain ⟨repeats', herrors', hexact'⟩ := multiplicityErrors_exact (m := m)
    ((hperm.map (·.serial)).nodup_iff.mp hserials)
  refine ⟨repeats, repeats', herrors, herrors', hexact, hexact', fun type => ?_⟩
  rw [hexact.counted, hexact'.counted, hperm.countP_eq]

theorem hierarchyErrors_perm (options : ReferenceOptions) :
    (hierarchyErrors m documents options).map (List.map (·.message)) =
      (hierarchyErrors m documents' options).map (List.map (·.message)) := by
  unfold hierarchyErrors
  split
  · exact IdRegistry.cycleErrors_message_congr (isDefined_register_perm hperm)
      (references_register_perm hperm)
  · rfl

end Orders

section Unambiguous

variable {m : Metadata} {documents documents' : List Document}

theorem register_of_nodup
    (hnodup : ((documents.flatMap (Document.definitions m.ids)).map (·.id)).Nodup) :
    register m documents = ([], { defined := documents.flatMap (Document.definitions m.ids)
                                  references := documents.flatMap (Document.references m) }) := by
  have hnew : ∀ x ∈ documents.flatMap (Document.definitions m.ids),
      ({} : IdRegistry).definition? x.id = none := fun _ _ => rfl
  rw [register, IdRegistry.defineAll_of_nodup hnew hnodup, List.nil_append]

variable (hperm : documents.Perm documents')
  (hnodup : ((documents.flatMap (Document.definitions m.ids)).map (·.id)).Nodup)

include hperm hnodup

private theorem nodup_definitions_perm :
    ((documents'.flatMap (Document.definitions m.ids)).map (·.id)).Nodup :=
  ((hperm.flatMap_right (Document.definitions m.ids)).map (·.id)).nodup_iff.mp hnodup

theorem definition?_register_perm (id : String) :
    (register m documents).2.definition? id = (register m documents').2.definition? id := by
  have hnodup' := nodup_definitions_perm hperm hnodup
  refine Option.ext fun x => ?_
  rw [register_of_nodup hnodup, register_of_nodup hnodup',
    IdRegistry.definition?_eq_some_iff hnodup, IdRegistry.definition?_eq_some_iff hnodup']
  rw [(hperm.flatMap_right (Document.definitions m.ids)).mem_iff]

theorem unusedWarnings_perm :
    (register m documents).2.unusedWarnings.Perm (register m documents').2.unusedWarnings := by
  have hsame (x : Definition) : ((register m documents).2.referencesTo x.id).isEmpty =
      ((register m documents').2.referencesTo x.id).isEmpty := by
    rw [Bool.eq_iff_iff, IdRegistry.isEmpty_referencesTo_iff, IdRegistry.isEmpty_referencesTo_iff]
    simp only [(references_register_perm hperm).mem_iff]
  rw [IdRegistry.unusedWarnings, IdRegistry.unusedWarnings]
  simp only [hsame]
  rw [register_of_nodup hnodup, register_of_nodup (nodup_definitions_perm hperm hnodup)]
  exact ((hperm.flatMap_right _).filter _).map _

theorem hierarchyErrors_of_nodup (options : ReferenceOptions) :
    hierarchyErrors m documents options = hierarchyErrors m documents' options := by
  rw [hierarchyErrors, hierarchyErrors, IdRegistry.cycleErrors_congr
    (definition?_register_perm hperm hnodup) (references_register_perm hperm)]

end Unambiguous

private theorem repeats_eq_nil_iff {repeats : List Repeat} :
    repeats = [] ↔ ∀ type, repeats.countP (·.type == type) = 0 := by
  constructor
  · rintro rfl type
    exact List.countP_nil
  · intro hnone
    rw [List.eq_nil_iff_forall_not_mem]
    intro r hr
    exact List.countP_eq_zero.mp (hnone r.type) r hr (beq_self_eq_true r.type)

theorem multiplicityErrors_of_singletonsOnce {m : Metadata} {documents : List Document}
    (hserials : (documents.map (·.serial)).Nodup) (honce : SingletonsOnce m documents) :
    multiplicityErrors m documents [] = [] := by
  obtain ⟨repeats, herrors, hexact⟩ := multiplicityErrors_exact (m := m) hserials
  rw [herrors, List.map_eq_nil_iff, repeats_eq_nil_iff]
  intro type
  rw [hexact.counted]
  split
  · next hsingleton =>
    have hle := honce type hsingleton
    omega
  · rfl

/-- Where nothing is first among several, reports in two orders hold the same. -/
private theorem reportWith_perm {m : Metadata} {documents documents' : List Document}
    (hserials : (documents.map (·.serial)).Nodup) (hperm : documents.Perm documents')
    (honce : DefinedOnce m.ids documents) (hsingletons : SingletonsOnce m documents)
    (options : ReferenceOptions) (cycles : List Diagnostic) :
    (reportWith m documents options cycles).errors.Perm
        (reportWith m documents' options cycles).errors ∧
      (reportWith m documents options cycles).warnings.Perm
        (reportWith m documents' options cycles).warnings := by
  have hnodup := nodup_of_definedOnce honce
  have hduplicates : (register m documents).1 = [] := by rw [register_of_nodup hnodup]
  have hduplicates' := (duplicates_eq_nil_perm hperm).mp hduplicates
  have hserials' := (hperm.map (·.serial)).nodup_iff.mp hserials
  have hsingletons' : SingletonsOnce m documents' := fun type hsingleton => by
    rw [← hperm.countP_eq]
    exact hsingletons type hsingleton
  constructor
  · simp only [reportWith, hduplicates, hduplicates', ite_self,
      multiplicityErrors_of_singletonsOnce hserials hsingletons,
      multiplicityErrors_of_singletonsOnce hserials' hsingletons']
    exact (((List.Perm.refl []).append (referenceErrors_perm hperm)).append
      (List.Perm.refl [])).append (List.Perm.refl cycles)
  · simp only [reportWith]
    split
    · exact List.Perm.refl []
    · exact unusedWarnings_perm hperm hnodup

/-- The reports that the check makes in two orders find the same. -/
private theorem reportWith_sameFindings {m : Metadata} {documents documents' : List Document}
    {options : ReferenceOptions} (hserials : (documents.map (·.serial)).Nodup)
    (hperm : documents.Perm documents') {cycles cycles' : List Diagnostic}
    (hcycles : hierarchyErrors m documents options = .ok cycles)
    (hcycles' : hierarchyErrors m documents' options = .ok cycles') :
    SameFindings m documents documents' options (reportWith m documents options cycles)
      (reportWith m documents' options cycles') := by
  have hcode := code_of_hierarchyErrors hcycles
  have hcode' := code_of_hierarchyErrors hcycles'
  have hmessages : cycles.map (·.message) = cycles'.map (·.message) := by
    have hsame := hierarchyErrors_perm (m := m) hperm options
    rw [hcycles, hcycles'] at hsame
    exact Except.ok.inj hsame
  obtain ⟨repeats, repeats', herrors, herrors', hexact, hexact', hcounts⟩ :=
    multiplicityErrors_perm (m := m) hperm hserials
  refine ⟨?_, isDefined_register_perm hperm, ?_, ?_, ?_, ?_, ?_, ?_, ?_⟩
  · -- Each stage finds nothing in one order if and only if it does in the other.
    simp only [reportWith, List.append_eq_nil_iff]
    refine and_congr (and_congr (and_congr (duplicates_eq_nil_perm hperm) ?_) ?_) ?_
    · rw [← List.length_eq_zero_iff, (referenceErrors_perm hperm).length_eq,
        List.length_eq_zero_iff]
    · rw [herrors, herrors']
      split
      · rw [List.map_eq_nil_iff, List.map_eq_nil_iff, repeats_eq_nil_iff, repeats_eq_nil_iff]
        simp only [hcounts]
      · exact Iff.rfl
    · rw [← List.map_eq_nil_iff (f := fun e : Diagnostic => e.message), hmessages,
        List.map_eq_nil_iff]
  · rw [filter_reference hcode (Or.inl rfl), filter_reference hcode' (Or.inl rfl)]
    exact (referenceErrors_perm hperm).filter _
  · rw [filter_reference hcode (Or.inr rfl), filter_reference hcode' (Or.inr rfl)]
    exact (referenceErrors_perm hperm).filter _
  · rw [filter_duplicateId hcode, filter_duplicateId hcode']
    exact countP_duplicates_perm hperm
  · intro message
    simp only [reportWith]
    split
    · exact Iff.rfl
    · exact unusedMessages_perm hperm message
  · refine ⟨repeats, repeats', ?_, ?_, hexact, hexact', hcounts⟩
    · rw [filter_multipleSingleton hcode, herrors]
    · rw [filter_multipleSingleton hcode', herrors']
  · rw [filter_hierarchyCycle hcode, filter_hierarchyCycle hcode']
    exact hmessages
  · intro honce hsingletons
    obtain rfl : cycles = cycles' := by
      have hsame := hierarchyErrors_of_nodup hperm (nodup_of_definedOnce honce) options
      rw [hcycles, hcycles'] at hsame
      exact Except.ok.inj hsame
    exact reportWith_perm hserials hperm honce hsingletons options cycles

/-- In whatever order different documents are given, the check fails at the same element, or it
reports the same, apart from which definition or document counts as the first. -/
theorem checkReferences_perm (m : Metadata) (options : ReferenceOptions)
    {documents documents' : List Document} (hserials : (documents.map (·.serial)).Nodup)
    (hperm : documents.Perm documents') :
    SameOutcome m documents documents' options (checkReferences m documents options)
      (checkReferences m documents' options) := by
  have hsame := hierarchyErrors_perm (m := m) hperm options
  rw [checkReferences_eq, checkReferences_eq]
  cases hcycles : hierarchyErrors m documents options with
  | error owner =>
    cases hcycles' : hierarchyErrors m documents' options with
    | error owner' =>
      rw [hcycles, hcycles'] at hsame
      cases hsame
      exact .failed owner
    | ok cycles' =>
      rw [hcycles, hcycles'] at hsame
      cases hsame
  | ok cycles =>
    cases hcycles' : hierarchyErrors m documents' options with
    | error owner' =>
      rw [hcycles, hcycles'] at hsame
      cases hsame
    | ok cycles' => exact .reported (reportWith_sameFindings hserials hperm hcycles hcycles')

/-- Two documents of one type that define the same process are checked alike in both orders. -/
theorem checkReferences_two_orders :
    SameOutcome
      { ids := { kinds := [("PR", "process")] }, documents := [⟨"process", "", .singleton, []⟩] }
      [{ serial := 0, content := .mapping [("PR00001", .mapping [])], type := some "process" },
        { serial := 1, content := .mapping [("PR00001", .mapping [])], type := some "process" }]
      [{ serial := 1, content := .mapping [("PR00001", .mapping [])], type := some "process" },
        { serial := 0, content := .mapping [("PR00001", .mapping [])], type := some "process" }]
      {}
      (checkReferences
        { ids := { kinds := [("PR", "process")] }, documents := [⟨"process", "", .singleton, []⟩] }
        [{ serial := 0, content := .mapping [("PR00001", .mapping [])], type := some "process" },
          { serial := 1, content := .mapping [("PR00001", .mapping [])], type := some "process" }]
        {})
      (checkReferences
        { ids := { kinds := [("PR", "process")] }, documents := [⟨"process", "", .singleton, []⟩] }
        [{ serial := 1, content := .mapping [("PR00001", .mapping [])], type := some "process" },
          { serial := 0, content := .mapping [("PR00001", .mapping [])], type := some "process" }]
        {}) :=
  checkReferences_perm _ _ (by decide) (List.Perm.swap _ _ _)

end Workspace

end BusinessModel
