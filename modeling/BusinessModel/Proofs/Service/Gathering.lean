import BusinessModel.Proofs.Workspace.Report
import BusinessModel.Service

/-!
The result of checking a workspace is put together from the results of its parts: no diagnostic is
lost, added, moved or rewritten on the way. Advice touches nothing that says what is wrong and where,
and a strict result has the warnings as errors behind the errors.
-/

namespace BusinessModel

open Schema

/-! ### Advice -/

/-- A diagnostic with other advice in the place of its own: a suggestion, a hint and options. What
is wrong, where, and how much it weighs stays the same. -/
def Diagnostic.AdvisedAs (d advised : Diagnostic) : Prop :=
  ∃ suggestion hint validOptions, advised = { d with suggestion, hint, validOptions }

theorem Diagnostic.AdvisedAs.refl (d : Diagnostic) : d.AdvisedAs d :=
  ⟨d.suggestion, d.hint, d.validOptions, rfl⟩

theorem Diagnostic.AdvisedAs.severity_eq {d advised : Diagnostic} (h : d.AdvisedAs advised) :
    advised.severity = d.severity := by
  obtain ⟨suggestion, hint, validOptions, rfl⟩ := h
  rfl

/-- Advice on a diagnostic of references changes nothing else of it. -/
theorem ReferenceAdvice.advisedAs_advise (m : Option Metadata) (registry : IdRegistry)
    (d : Diagnostic) : d.AdvisedAs (advise m registry d) := by
  cases m with
  | none => exact .refl d
  | some m =>
    rw [advise]
    split
    · cases reference? registry d with
      | none => exact .refl d
      | some ref => exact ⟨_, _, _, rfl⟩
    · cases reference? registry d with
      | none => exact .refl d
      | some ref => exact ⟨d.suggestion, _, _, rfl⟩
    · unfold onDuplicate
      split
      · exact .refl d
      · exact ⟨_, d.hint, d.validOptions, rfl⟩
    · exact ⟨d.suggestion, _, d.validOptions, rfl⟩
    · exact .refl d

/-! ### What diagnostics weigh -/

/-- All errors of a result weigh as errors, and all warnings as warnings. -/
structure Weighed (errors warnings : List Diagnostic) : Prop where
  error : ∀ d ∈ errors, d.severity = .error
  warning : ∀ d ∈ warnings, d.severity = .warning

theorem Weighed.nil : Weighed [] [] := ⟨by simp, by simp⟩

theorem Weighed.append {errors warnings errors' warnings' : List Diagnostic}
    (h : Weighed errors warnings) (h' : Weighed errors' warnings') :
    Weighed (errors ++ errors') (warnings ++ warnings') := by
  constructor
  · intro d hd
    exact (List.mem_append.mp hd).elim (h.error d) (h'.error d)
  · intro d hd
    exact (List.mem_append.mp hd).elim (h.warning d) (h'.warning d)

/-- Advice leaves the weights as they are. -/
theorem Weighed.advise {errors warnings : List Diagnostic} (h : Weighed errors warnings)
    (m : Option Metadata) (registry : IdRegistry) :
    Weighed (errors.map (ReferenceAdvice.advise m registry))
      (warnings.map (ReferenceAdvice.advise m registry)) := by
  have hseverity (d : Diagnostic) : (ReferenceAdvice.advise m registry d).severity = d.severity :=
    (ReferenceAdvice.advisedAs_advise m registry d).severity_eq
  constructor
  · intro d hd
    obtain ⟨e, he, rfl⟩ := List.mem_map.mp hd
    rw [hseverity e]
    exact h.error e he
  · intro d hd
    obtain ⟨e, he, rfl⟩ := List.mem_map.mp hd
    rw [hseverity e]
    exact h.warning e he

/-- Grading a result keeps the weights right in either strictness. -/
theorem Weighed.graded {r : ValidationResult} (h : Weighed r.errors r.warnings) (strict : Bool) :
    Weighed (r.graded strict).errors (r.graded strict).warnings := by
  cases strict with
  | false => exact h
  | true =>
    constructor
    · intro d hd
      rcases List.mem_append.mp hd with hd | hd
      · exact h.error d hd
      · obtain ⟨w, _, rfl⟩ := List.mem_map.mp hd
        rfl
    · intro d hd
      cases hd

theorem Weighed.foldr {results : List ValidationResult} {last : ValidationResult}
    (h : ∀ r ∈ results, Weighed r.errors r.warnings) (hlast : Weighed last.errors last.warnings) :
    Weighed (results.foldr (· ++ ·) last).errors (results.foldr (· ++ ·) last).warnings := by
  induction results with
  | nil => exact hlast
  | cons r rest ih =>
    have hr := h r List.mem_cons_self
    have hrest := ih fun r hr => h r (List.mem_cons_of_mem _ hr)
    exact hr.append hrest

theorem Reference.severity_of_mem_errors {m : Metadata} {registry : IdRegistry} {r : Reference} :
    ∀ d ∈ r.errors m registry, d.severity = .error := by
  intro d hd
  rcases List.mem_append.mp hd with hd | hd
  · split at hd
    · cases hd
    · rw [List.mem_singleton.mp hd]
      rfl
  · split at hd
    · cases hd
    · rw [List.mem_singleton.mp hd]
      rfl

/-- Each stage of the check of references reports what it reports with the weight it has. -/
theorem Workspace.weighed_of_checkReferences {m : Metadata} {documents : List Document}
    {options : ReferenceOptions} {report : ReferenceReport}
    (h : checkReferences m documents options = .ok report) :
    Weighed report.errors report.warnings := by
  rw [checkReferences_eq] at h
  cases hcycles : hierarchyErrors m documents options with
  | error owner => simp [hcycles, Except.map] at h
  | ok cycles =>
    rw [hcycles] at h
    cases h
    constructor
    · intro d hd
      rcases List.mem_append.mp hd with hd | hcycle
      · rcases List.mem_append.mp hd with hd | hmultiplicity
        · rcases List.mem_append.mp hd with hduplicate | hreference
          · obtain ⟨x, first, rfl⟩ := IdRegistry.eq_duplicateError_of_mem d hduplicate
            rfl
          · obtain ⟨r, _, hd⟩ := List.mem_flatMap.mp hreference
            exact Reference.severity_of_mem_errors d hd
        · split at hmultiplicity
          · obtain ⟨type, document, first, rfl⟩ := eq_repeatError_of_mem d hmultiplicity
            rfl
          · cases hmultiplicity
      · unfold hierarchyErrors at hcycles
        split at hcycles
        · obtain ⟨cycle, hd⟩ := IdRegistry.exists_cycleError_of_mem hcycles d hcycle
          exact (IdRegistry.code_of_cycleError hd).2
        · cases hcycles
          cases hcycle
    · intro d hd
      have hd : d ∈ if options.suppressUnused then []
          else (register m documents).2.unusedWarnings := hd
      split at hd
      · cases hd
      · obtain ⟨x, _, rfl⟩ := List.mem_map.mp hd
        rfl

namespace Service

/-! ### The parts of a check -/

/-- The report on references that goes into the check of a workspace. -/
def referenceReport (s : Service) (documents : List Document) :
    Except UnknownOwner ReferenceReport :=
  Workspace.checkReferences s.guide documents { suppressUnused := s.suppressUnused }

/-- The advice on what is in a report on references. -/
def adviseOn (s : Service) (report : ReferenceReport) : Diagnostic → Diagnostic :=
  ReferenceAdvice.advise (some s.adviser) report.registry

theorem validateDocument_plain (s : Service) (d : Document) :
    s.validateDocument d (some false) = s.documentResult d := by
  unfold validateDocument
  cases s.documentResult d <;> rfl

theorem validate_eq (s : Service) (documents : List Document) (strict : Option Bool) :
    s.validate documents strict =
      (s.workspaceResult documents).map (·.graded (s.strictness strict)) := by
  unfold validate
  cases s.workspaceResult documents <;> rfl

theorem referenceResult_eq_ok_iff {s : Service} {documents : List Document}
    {r : ValidationResult} :
    s.referenceResult documents = .ok r ↔
      ∃ report, s.referenceReport documents = .ok report ∧
        r = ⟨report.errors.map (s.adviseOn report), report.warnings.map (s.adviseOn report)⟩ := by
  unfold referenceResult
  rw [bind_eq_ok_iff]
  constructor
  · rintro ⟨report, hreport, hr⟩
    exact ⟨report, mapError_eq_ok_iff.mp hreport, (Except.ok.inj hr).symm⟩
  · rintro ⟨report, hreport, rfl⟩
    exact ⟨report, mapError_eq_ok_iff.mpr hreport, rfl⟩

theorem workspaceResult_eq_ok_iff {s : Service} {documents : List Document}
    {r : ValidationResult} :
    s.workspaceResult documents = .ok r ↔
      ∃ results references,
        List.Forall₂ (fun d result => s.documentResult d = .ok result) documents results ∧
        s.referenceResult documents = .ok references ∧ r = results.foldr (· ++ ·) references := by
  unfold workspaceResult
  rw [bind_eq_ok_iff]
  constructor
  · rintro ⟨results, hresults, h⟩
    obtain ⟨references, hreferences, hr⟩ := bind_eq_ok_iff.mp h
    exact ⟨results, references, mapM_eq_ok_iff.mp hresults, hreferences,
      (Except.ok.inj hr).symm⟩
  · rintro ⟨results, references, hresults, hreferences, rfl⟩
    exact ⟨results, mapM_eq_ok_iff.mpr hresults,
      bind_eq_ok_iff.mpr ⟨references, hreferences, rfl⟩⟩

/-- A check of a workspace fails only where the check of a document or that of the references
fails. -/
theorem workspaceResult_eq_error {s : Service} {documents : List Document} {e : ServiceError}
    (h : s.workspaceResult documents = .error e) :
    (∃ d ∈ documents, s.documentResult d = .error e) ∨
      ∃ owner, s.referenceReport documents = .error owner ∧ e = .owner owner := by
  unfold workspaceResult at h
  rcases bind_eq_error_iff.mp h with hdocuments | ⟨results, _, h⟩
  · exact Or.inl (exists_of_mapM_eq_error hdocuments)
  · rcases bind_eq_error_iff.mp h with hreferences | ⟨references, _, hpure⟩
    · unfold referenceResult at hreferences
      rcases bind_eq_error_iff.mp hreferences with hreport | ⟨report, _, hpure⟩
      · obtain ⟨owner, howner, he⟩ := mapError_eq_error_iff.mp hreport
        exact Or.inr ⟨owner, howner, he.symm⟩
      · cases hpure
    · cases hpure

/-- Joining results joins their errors and their warnings. -/
theorem foldr_append (results : List ValidationResult) (last : ValidationResult) :
    results.foldr (· ++ ·) last =
      ⟨results.flatMap (·.errors) ++ last.errors, results.flatMap (·.warnings) ++ last.warnings⟩ := by
  induction results with
  | nil => rfl
  | cons r rest ih =>
    rw [List.foldr_cons, ih, List.flatMap_cons, List.flatMap_cons, List.append_assoc,
      List.append_assoc]
    rfl

/-! ### What the parts weigh -/

/-- A finding is reported as an error, and a missing type as a warning. -/
theorem weighed_of_documentResult {s : Service} {d : Document} {r : ValidationResult}
    (h : s.documentResult d = .ok r) : Weighed r.errors r.warnings := by
  unfold documentResult at h
  split at h
  · cases h
    constructor
    · intro w hw
      cases hw
    · intro w hw
      rw [List.mem_singleton.mp hw]
      rfl
  · obtain ⟨found, _, h⟩ := bind_eq_ok_iff.mp h
    obtain ⟨errors, herrors, h⟩ := bind_eq_ok_iff.mp h
    cases h
    constructor
    · intro w hw
      obtain ⟨f, _, hf⟩ := exists_of_mem_mapM herrors hw
      obtain ⟨advice, _, hw⟩ := bind_eq_ok_iff.mp (mapError_eq_ok_iff.mp hf)
      rw [← Except.ok.inj hw]
    · intro w hw
      cases hw

theorem weighed_of_workspaceResult {s : Service} {documents : List Document}
    {r : ValidationResult} (h : s.workspaceResult documents = .ok r) :
    Weighed r.errors r.warnings := by
  obtain ⟨results, references, hresults, hreferences, rfl⟩ := workspaceResult_eq_ok_iff.mp h
  obtain ⟨report, hreport, rfl⟩ := referenceResult_eq_ok_iff.mp hreferences
  apply Weighed.foldr
  · intro r hr
    obtain ⟨d, _, hd⟩ := exists_of_mem_mapM (mapM_eq_ok_iff.mpr hresults) hr
    exact weighed_of_documentResult hd
  · exact (Workspace.weighed_of_checkReferences hreport).advise _ _

/-! ### The whole check -/

/-- The result `plain` of a check that is not strict puts the results of the parts together. -/
structure Gathers (s : Service) (documents : List Document) (plain : ValidationResult) : Prop where
  /-- First comes what is wrong with each document by itself, in the order of the documents, then
  what is wrong with the references, with advice. -/
  parts : ∃ results report,
    List.Forall₂ (fun d r => s.validateDocument d (some false) = .ok r) documents results ∧
    s.referenceReport documents = .ok report ∧
    plain.errors = results.flatMap (·.errors) ++ report.errors.map (s.adviseOn report) ∧
    plain.warnings = results.flatMap (·.warnings) ++ report.warnings.map (s.adviseOn report)
  /-- The advice leaves everything else of a diagnostic as the check of references emits it. -/
  advised : ∀ report (d : Diagnostic), d.AdvisedAs (s.adviseOn report d)

/-- The result `r` of a check has all diagnostics of the result `plain` of the same check without
strictness, graded and otherwise as they are. -/
structure Grades (plain r : ValidationResult) (strict : Bool) : Prop where
  /-- Without strictness, the result is the same. -/
  lenient : strict = false → r = plain
  /-- With strictness, the warnings come behind the errors and weigh as errors. -/
  strict : strict = true →
    r.errors = plain.errors ++ plain.warnings.map (fun d => { d with severity := .error }) ∧
    r.warnings = []
  /-- All errors weigh as errors and all warnings as warnings. -/
  weighed : Weighed r.errors r.warnings
  /-- A result is valid if there are no errors. -/
  valid_iff : r.valid = true ↔ r.errors = []
  /-- What is valid with strictness is valid without. -/
  valid_plain : r.valid = true → plain.valid = true

/-- A check of a workspace drops, adds, moves and rewrites no diagnostic of its parts, and it fails
only where one of its parts does. -/
theorem validate_gathers_diagnostics (s : Service) (documents : List Document)
    (strict : Option Bool) :
    match s.validate documents strict with
    | .ok r => ∃ plain, s.validate documents (some false) = .ok plain ∧
        s.Gathers documents plain ∧ Grades plain r (s.strictness strict)
    | .error e =>
        (∃ d ∈ documents, s.validateDocument d (some false) = .error e) ∨
          ∃ owner, s.referenceReport documents = .error owner ∧ e = .owner owner := by
  rw [validate_eq, validate_eq]
  cases hresult : s.workspaceResult documents with
  | error e =>
    simp only [Except.map, validateDocument_plain]
    exact workspaceResult_eq_error hresult
  | ok plain =>
    refine ⟨plain, rfl, ⟨?_, fun report d => ?_⟩, ?_⟩
    · obtain ⟨results, references, hresults, hreferences, rfl⟩ :=
        workspaceResult_eq_ok_iff.mp hresult
      obtain ⟨report, hreport, rfl⟩ := referenceResult_eq_ok_iff.mp hreferences
      refine ⟨results, report, ?_, hreport, ?_⟩
      · simpa only [validateDocument_plain] using hresults
      · rw [foldr_append]
        exact ⟨rfl, rfl⟩
    · exact ReferenceAdvice.advisedAs_advise _ _ d
    · have hweighed := weighed_of_workspaceResult hresult
      refine ⟨fun h => ?_, fun h => ?_, hweighed.graded _, List.isEmpty_iff, fun h => ?_⟩
      · rw [h]
        rfl
      · rw [h]
        exact ⟨rfl, rfl⟩
      · cases hstrict : s.strictness strict with
        | false =>
          rw [hstrict] at h
          exact h
        | true =>
          rw [hstrict] at h
          have hnone : plain.errors ++ plain.warnings.map Diagnostic.asError = [] :=
            List.isEmpty_iff.mp h
          exact List.isEmpty_iff.mpr (List.append_eq_nil_iff.mp hnone).1

end Service

end BusinessModel
