import BusinessModel.Proofs.Outcome
import BusinessModel.Workspace.References

/-!
The report on references as a composition of its stages. Each stage has diagnostic codes of its own,
so the diagnostics of a stage are those with its codes; only the search for cycles can fail.
-/

namespace BusinessModel

open Schema

/-- Among diagnostics of one code, those of a code are all or none. -/
theorem filter_code_of_forall {diagnostics : List Diagnostic} {code : Code}
    (h : ∀ d ∈ diagnostics, d.code = code) (c : Code) :
    diagnostics.filter (·.code == c) = if code = c then diagnostics else [] := by
  by_cases hc : code = c
  · rw [if_pos hc, List.filter_eq_self]
    intro d hd
    simpa [h d hd] using hc
  · rw [if_neg hc, List.filter_eq_nil_iff]
    intro d hd
    simpa [h d hd] using hc

/-- The errors of recording definitions are those on definitions that come too late. -/
theorem IdRegistry.eq_duplicateError_of_mem {r : IdRegistry} {xs : List Definition} :
    ∀ d ∈ (r.defineAll xs).1, ∃ x first : Definition, d = x.duplicateError first := by
  induction xs generalizing r with
  | nil => simp [defineAll]
  | cons x rest ih =>
    intro d hd
    rw [defineAll] at hd
    rcases hdefine : r.define x with ⟨first?, r'⟩
    rw [hdefine] at hd
    cases first? with
    | none => exact ih d hd
    | some first =>
      rcases List.mem_cons.mp hd with rfl | hd
      · exact ⟨x, first, rfl⟩
      · exact ih d hd

theorem IdRegistry.code_of_mem_defineAll {r : IdRegistry} {xs : List Definition} :
    ∀ d ∈ (r.defineAll xs).1, d.code = .duplicateId := by
  intro d hd
  obtain ⟨x, first, rfl⟩ := eq_duplicateError_of_mem d hd
  rfl

theorem Reference.code_of_mem_errors {m : Metadata} {registry : IdRegistry} {r : Reference} :
    ∀ d ∈ r.errors m registry, d.code = .undefinedReference ∨ d.code = .wrongReferenceType := by
  intro d hd
  rcases List.mem_append.mp hd with hd | hd
  · split at hd
    · cases hd
    · rw [List.mem_singleton.mp hd]
      exact Or.inl rfl
  · split at hd
    · cases hd
    · rw [List.mem_singleton.mp hd]
      exact Or.inr rfl

/-- The errors on types of which there may be one document are those on further documents. -/
theorem eq_repeatError_of_mem {m : Metadata} {documents : List Document}
    {seen : List (String × Document)} :
    ∀ d ∈ multiplicityErrors m documents seen,
      ∃ type, ∃ document first : Document, d = document.repeatError type first := by
  induction documents generalizing seen with
  | nil => simp [multiplicityErrors]
  | cons document rest ih =>
    intro d hd
    rw [multiplicityErrors] at hd
    split at hd
    · exact ih d hd
    · split at hd
      · exact ih d hd
      · split at hd
        · exact ih d hd
        · split at hd
          · exact ih d hd
          · rcases List.mem_cons.mp hd with rfl | hd
            · exact ⟨_, _, _, rfl⟩
            · exact ih d hd

theorem code_of_mem_multiplicityErrors {m : Metadata} {documents : List Document}
    {seen : List (String × Document)} :
    ∀ d ∈ multiplicityErrors m documents seen, d.code = .multipleSingleton := by
  intro d hd
  obtain ⟨type, document, first, rfl⟩ := eq_repeatError_of_mem d hd
  rfl

theorem IdRegistry.code_of_cycleError {r : IdRegistry} {cycle : List String} {d : Diagnostic}
    (h : r.cycleError cycle = .ok d) : d.code = .hierarchyCycle ∧ d.severity = .error := by
  unfold IdRegistry.cycleError at h
  simp only [bind, Except.bind] at h
  split at h
  · cases h
  · cases h
    exact ⟨rfl, rfl⟩

/-- Each error on elements that are their own ancestors is that on a cycle. -/
theorem IdRegistry.exists_cycleError_of_mem {m : Metadata} {r : IdRegistry}
    {errors : List Diagnostic} (h : r.cycleErrors m = .ok errors) :
    ∀ d ∈ errors, ∃ cycle, r.cycleError cycle = .ok d := by
  intro d hd
  obtain ⟨cycle, _, hcycle⟩ := exists_of_mem_mapM h hd
  exact ⟨cycle, hcycle⟩

namespace Workspace

/-- The errors on elements that are their own ancestors, if they are asked for. -/
def hierarchyErrors (m : Metadata) (documents : List Document) (options : ReferenceOptions) :
    Except UnknownOwner (List Diagnostic) :=
  if options.checkHierarchy then (register m documents).2.cycleErrors m else .ok []

/-- The report that the stages before the search for cycles make together with its errors. -/
def reportWith (m : Metadata) (documents : List Document) (options : ReferenceOptions)
    (cycles : List Diagnostic) : ReferenceReport :=
  let registry := (register m documents).2
  { errors := (register m documents).1 ++ registry.references.flatMap (Reference.errors m registry)
      ++ (if options.checkMultiplicity then multiplicityErrors m documents [] else []) ++ cycles
    warnings := if options.suppressUnused then [] else registry.unusedWarnings
    registry }

/-- The check fails exactly if the search for cycles does. -/
theorem checkReferences_eq (m : Metadata) (documents : List Document)
    (options : ReferenceOptions) :
    checkReferences m documents options =
      (hierarchyErrors m documents options).map (reportWith m documents options) := by
  rcases hregister : register m documents with ⟨duplicates, registry⟩
  simp only [checkReferences, hierarchyErrors, hregister]
  by_cases hierarchy : options.checkHierarchy = true
  · simp only [hierarchy, if_true]
    cases registry.cycleErrors m with
    | error owner => rfl
    | ok cycles =>
      simp [bind, Except.bind, pure, Except.pure, Except.map, reportWith, hregister]
  · simp [hierarchy, bind, Except.bind, pure, Except.pure, Except.map, reportWith, hregister]

/-- A report is made with the errors on cycles. -/
theorem exists_of_checkReferences {m : Metadata} {documents : List Document}
    {options : ReferenceOptions} {report : ReferenceReport}
    (h : checkReferences m documents options = .ok report) :
    ∃ cycles, hierarchyErrors m documents options = .ok cycles ∧
      report = reportWith m documents options cycles := by
  rw [checkReferences_eq] at h
  cases hcycles : hierarchyErrors m documents options with
  | error owner =>
    rw [hcycles] at h
    cases h
  | ok cycles =>
    rw [hcycles] at h
    exact ⟨cycles, rfl, (Except.ok.inj h).symm⟩

theorem code_of_hierarchyErrors {m : Metadata} {documents : List Document}
    {options : ReferenceOptions} {cycles : List Diagnostic}
    (h : hierarchyErrors m documents options = .ok cycles) :
    ∀ d ∈ cycles, d.code = .hierarchyCycle := by
  intro d hd
  unfold hierarchyErrors at h
  split at h
  · obtain ⟨cycle, hcycle⟩ := IdRegistry.exists_cycleError_of_mem h d hd
    exact (IdRegistry.code_of_cycleError hcycle).1
  · cases h
    cases hd

theorem hierarchyErrors_eq_error {m : Metadata} {documents : List Document}
    {options : ReferenceOptions} {owner : UnknownOwner}
    (h : hierarchyErrors m documents options = .error owner) :
    options.checkHierarchy = true ∧ (register m documents).2.cycleErrors m = .error owner := by
  unfold hierarchyErrors at h
  split at h
  · next hasked => exact ⟨hasked, h⟩
  · cases h

section Filter

variable {m : Metadata} {documents : List Document} {options : ReferenceOptions}
  {cycles : List Diagnostic} (hcycles : ∀ d ∈ cycles, d.code = .hierarchyCycle)

private theorem filter_multiplicity (c : Code) :
    (if options.checkMultiplicity then multiplicityErrors m documents [] else []).filter
        (·.code == c) =
      if Code.multipleSingleton = c then
        if options.checkMultiplicity then multiplicityErrors m documents [] else []
      else [] := by
  apply filter_code_of_forall
  intro d hd
  split at hd
  · exact code_of_mem_multiplicityErrors d hd
  · cases hd

private theorem filter_references_eq_nil {references : List Reference} {registry : IdRegistry}
    {c : Code} (hundefined : c ≠ .undefinedReference) (hwrong : c ≠ .wrongReferenceType) :
    (references.flatMap (Reference.errors m registry)).filter (·.code == c) = [] := by
  rw [List.filter_eq_nil_iff]
  intro d hd
  obtain ⟨r, _, hd⟩ := List.mem_flatMap.mp hd
  rcases Reference.code_of_mem_errors d hd with h | h <;> simp [h, hundefined.symm, hwrong.symm]

include hcycles in
theorem filter_duplicateId :
    (reportWith m documents options cycles).errors.filter (·.code == .duplicateId) =
      (register m documents).1 := by
  have hduplicates : ∀ d ∈ (register m documents).1, d.code = .duplicateId :=
    IdRegistry.code_of_mem_defineAll
  simp [reportWith, filter_code_of_forall hduplicates, filter_code_of_forall hcycles,
    filter_multiplicity, filter_references_eq_nil]

include hcycles in
theorem filter_reference {c : Code} (hc : c = .undefinedReference ∨ c = .wrongReferenceType) :
    (reportWith m documents options cycles).errors.filter (·.code == c) =
      ((register m documents).2.references.flatMap
        (Reference.errors m (register m documents).2)).filter (·.code == c) := by
  have hduplicates : ∀ d ∈ (register m documents).1, d.code = .duplicateId :=
    IdRegistry.code_of_mem_defineAll
  rcases hc with rfl | rfl <;>
    simp [reportWith, filter_code_of_forall hduplicates, filter_code_of_forall hcycles,
      filter_multiplicity]

include hcycles in
theorem filter_multipleSingleton :
    (reportWith m documents options cycles).errors.filter (·.code == .multipleSingleton) =
      if options.checkMultiplicity then multiplicityErrors m documents [] else [] := by
  have hduplicates : ∀ d ∈ (register m documents).1, d.code = .duplicateId :=
    IdRegistry.code_of_mem_defineAll
  simp [reportWith, filter_code_of_forall hduplicates, filter_code_of_forall hcycles,
    filter_multiplicity, filter_references_eq_nil]

include hcycles in
theorem filter_hierarchyCycle :
    (reportWith m documents options cycles).errors.filter (·.code == .hierarchyCycle) =
      cycles := by
  have hduplicates : ∀ d ∈ (register m documents).1, d.code = .duplicateId :=
    IdRegistry.code_of_mem_defineAll
  simp [reportWith, filter_code_of_forall hduplicates, filter_code_of_forall hcycles,
    filter_multiplicity, filter_references_eq_nil]

end Filter

end Workspace

end BusinessModel
