import BusinessModel.Proofs.Workspace.Definition

/-!
Every reference in a list of documents is recorded and checked once: against the definitions of all
documents, and against the kinds of elements that its property accepts.
-/

namespace BusinessModel

open Schema

namespace IdRegistry

private theorem mem_foldl_ids (references : List Reference) (seen : List String) (id : String) :
    id ∈ references.foldl (fun seen ref => if seen.contains ref.id then seen else ref.id :: seen)
        seen ↔ id ∈ seen ∨ ∃ ref ∈ references, ref.id = id := by
  induction references generalizing seen with
  | nil => simp
  | cons ref rest ih =>
    rw [List.foldl_cons, ih]
    by_cases hseen : seen.contains ref.id = true
    · rw [if_pos hseen]
      rw [List.contains_iff_mem] at hseen
      constructor
      · rintro (hid | ⟨ref', href', hid⟩)
        · exact Or.inl hid
        · exact Or.inr ⟨ref', List.mem_cons_of_mem _ href', hid⟩
      · rintro (hid | ⟨ref', href', rfl⟩)
        · exact Or.inl hid
        · rcases List.mem_cons.mp href' with rfl | href'
          · exact Or.inl hseen
          · exact Or.inr ⟨ref', href', rfl⟩
    · rw [if_neg hseen]
      simp only [List.mem_cons, exists_eq_or_imp]
      rw [or_assoc, or_left_comm, eq_comm (a := id)]

private theorem nodup_foldl_ids (references : List Reference) {seen : List String}
    (hseen : seen.Nodup) :
    (references.foldl (fun seen ref => if seen.contains ref.id then seen else ref.id :: seen)
      seen).Nodup := by
  induction references generalizing seen with
  | nil => exact hseen
  | cons ref rest ih =>
    rw [List.foldl_cons]
    apply ih
    split
    · exact hseen
    · next hnew =>
      rw [List.contains_iff_mem] at hnew
      exact List.nodup_cons.mpr ⟨hnew, hseen⟩

theorem nodup_referencedIds (r : IdRegistry) : r.referencedIds.Nodup := by
  rw [referencedIds, List.nodup_reverse]
  exact nodup_foldl_ids r.references List.nodup_nil

theorem mem_referencedIds_iff (r : IdRegistry) (id : String) :
    id ∈ r.referencedIds ↔ ∃ ref ∈ r.references, ref.id = id := by
  rw [referencedIds, List.mem_reverse, mem_foldl_ids]
  simp

private theorem lookup_map_self {α : Type} (f : String → α) (ids : List String) (id : String) :
    (ids.map fun x => (x, f x)).lookup id = if id ∈ ids then some (f id) else none := by
  induction ids with
  | nil => rfl
  | cons x rest ih =>
    by_cases hx : id = x
    · subst hx
      simp
    · have hbeq : (id == x) = false := by simpa using hx
      simp [List.lookup_cons, hbeq, ih, hx]

/-- The references under an identifier are all references to it, in order. -/
theorem lookup_referenced (r : IdRegistry) (id : String) :
    (r.referenced.lookup id).getD [] = r.referencesTo id := by
  rw [referenced, lookup_map_self]
  by_cases hid : id ∈ r.referencedIds
  · rw [if_pos hid, Option.getD_some]
  · rw [if_neg hid, Option.getD_none, eq_comm, referencesTo, List.filter_eq_nil_iff]
    intro ref href heq
    exact hid ((mem_referencedIds_iff r id).mpr ⟨ref, href, by simpa using heq⟩)

theorem isEmpty_referencesTo_iff (r : IdRegistry) (id : String) :
    (r.referencesTo id).isEmpty = true ↔ ∀ ref ∈ r.references, ref.id ≠ id := by
  rw [List.isEmpty_iff, referencesTo, List.filter_eq_nil_iff]
  simp only [beq_iff_eq]

end IdRegistry

namespace Reference

private theorem filter_errors {p : Diagnostic → Bool} {first second : Diagnostic} (b c : Bool) :
    ((if b then [] else [first]) ++ (if c then [] else [second])).filter p =
      (if b || !p first then none else some first).toList ++
        (if c || !p second then none else some second).toList := by
  rw [List.filter_append]
  congr 1
  · cases b <;> cases h : p first <;> simp [h]
  · cases c <;> cases h : p second <;> simp [h]

theorem filter_undefined (m : Metadata) (registry : IdRegistry) (r : Reference) :
    (r.errors m registry).filter (·.code == .undefinedReference) =
      (if registry.isDefined r.id then none else some r.undefinedError).toList := by
  refine (filter_errors _ _).trans ?_
  have hwrong : ∀ accepted letters,
      ((r.wrongTypeError m accepted letters).code == Code.undefinedReference) = false :=
    fun _ _ => rfl
  have hundefined : (r.undefinedError.code == Code.undefinedReference) = true := rfl
  simp [hwrong, hundefined]

theorem filter_wrongType (m : Metadata) (registry : IdRegistry) (r : Reference) :
    (r.errors m registry).filter (·.code == .wrongReferenceType) =
      (let letters := (m.ids.letters? r.id).getD ""
       let accepted := (m.acceptedLetters? r.field).getD []
       if accepted.isEmpty || accepted.contains letters then none
       else some (r.wrongTypeError m accepted letters)).toList := by
  refine (filter_errors _ _).trans ?_
  have hwrong : ∀ accepted letters,
      ((r.wrongTypeError m accepted letters).code == Code.wrongReferenceType) = true :=
    fun _ _ => rfl
  have hundefined : (r.undefinedError.code == Code.wrongReferenceType) = false := rfl
  simp [hwrong, hundefined]

end Reference

namespace Workspace

/-- A report whose references and diagnostics of references are exactly those of the documents. -/
structure ReferencesExact (m : Metadata) (documents : List Document) (options : ReferenceOptions)
    (report : ReferenceReport) : Prop where
  /-- Each reference is recorded once, under its identifier. -/
  recorded : ∀ id, Enumerates (fun site r => ReferenceAt m documents site r ∧ r.id = id)
    ((report.registry.referenced.lookup id).getD [])
  /-- Each identifier that is referred to is recorded once, and no other. -/
  identifiers : (report.registry.referenced.map (·.1)).Nodup ∧
    ∀ id, id ∈ report.registry.referenced.map (·.1) ↔
      ∃ site r, ReferenceAt m documents site r ∧ r.id = id
  /-- A reference is undefined if its identifier is a key in none of the documents. -/
  undefined : Enumerates (fun site error => ∃ r, ReferenceAt m documents site r ∧
    (∀ place d above e, EntryAt documents place d above e → e.key ≠ r.id) ∧
      error = r.undefinedError) (report.errors.filter (·.code == .undefinedReference))
  /-- A reference is of a wrong type if its property accepts some letters, but not these. -/
  wrongType : Enumerates (fun site error => ∃ r accepted, ReferenceAt m documents site r ∧
    m.acceptedLetters? r.field = some accepted ∧ accepted ≠ [] ∧
      (m.ids.letters? r.id).getD "" ∉ accepted ∧
      error = r.wrongTypeError m accepted ((m.ids.letters? r.id).getD ""))
    (report.errors.filter (·.code == .wrongReferenceType))
  /-- An identifier is unused if no reference is to it. -/
  unused : if options.suppressUnused then report.warnings = []
    else Enumerates (fun place warning => ∃ x, FirstDefinitionAt m.ids documents place x ∧
      (∀ site r, ReferenceAt m documents site r → r.id ≠ x.id) ∧ warning = x.unusedWarning)
      report.warnings

theorem references_register (m : Metadata) (documents : List Document) :
    (register m documents).2.references = documents.flatMap (Document.references m) := rfl

/-- A valid identifier is not defined exactly if it is no key. -/
theorem isDefined_eq_false_iff {m : Metadata} {documents : List Document} {id : String}
    (hvalid : m.ids.isValid id = true) :
    (register m documents).2.isDefined id = false ↔
      ∀ place d above e, EntryAt documents place d above e → e.key ≠ id := by
  rw [Bool.eq_false_iff, Ne, isDefined_register_iff]
  constructor
  · rintro hnone place d above e hat rfl
    exact hnone ⟨place, _, ⟨d, above, e, hat, hvalid, rfl⟩, rfl⟩
  · rintro hkeys ⟨place, x, ⟨d, above, e, hat, _, rfl⟩, hid⟩
    exact hkeys place d above e hat hid

private theorem undefined_enumerates (m : Metadata) (documents : List Document) :
    Enumerates (fun site error => ∃ r, ReferenceAt m documents site r ∧
        (∀ place d above e, EntryAt documents place d above e → e.key ≠ r.id) ∧
          error = r.undefinedError)
      (((register m documents).2.references.flatMap
        (Reference.errors m (register m documents).2)).filter
          (·.code == .undefinedReference)) := by
  rw [List.filter_flatMap, references_register]
  simp only [Reference.filter_undefined]
  rw [← List.filterMap_eq_flatMap_toList]
  refine ((references_enumerates m documents).filterMap _).congr fun site error => ?_
  refine exists_congr fun r => and_congr_right fun hr => ?_
  have hvalid : m.ids.isValid r.id = true := by
    obtain ⟨_, _, _, _, _, _, _, _, hvalid, rfl⟩ := hr
    exact hvalid
  rw [← isDefined_eq_false_iff hvalid]
  cases (register m documents).2.isDefined r.id <;> simp [eq_comm]

private theorem wrongType_enumerates (m : Metadata) (documents : List Document) :
    Enumerates (fun site error => ∃ r accepted, ReferenceAt m documents site r ∧
        m.acceptedLetters? r.field = some accepted ∧ accepted ≠ [] ∧
          (m.ids.letters? r.id).getD "" ∉ accepted ∧
          error = r.wrongTypeError m accepted ((m.ids.letters? r.id).getD ""))
      (((register m documents).2.references.flatMap
        (Reference.errors m (register m documents).2)).filter
          (·.code == .wrongReferenceType)) := by
  rw [List.filter_flatMap, references_register]
  simp only [Reference.filter_wrongType]
  rw [← List.filterMap_eq_flatMap_toList]
  refine ((references_enumerates m documents).filterMap _).congr fun site error => ?_
  refine exists_congr fun r => ?_
  cases haccepted : m.acceptedLetters? r.field with
  | none => simp
  | some accepted =>
    constructor
    · rintro ⟨hr, herror⟩
      simp only [Option.getD_some] at herror
      split at herror
      · cases herror
      · next hrefused =>
        rw [Bool.or_eq_true, not_or, List.isEmpty_iff, List.contains_iff_mem] at hrefused
        exact ⟨accepted, hr, rfl, hrefused.1, hrefused.2, (Option.some.inj herror).symm⟩
    · rintro ⟨_, hr, heq, hempty, hmem, rfl⟩
      cases heq
      exact ⟨hr, by simp [hempty, hmem]⟩

private theorem unused_enumerates (m : Metadata) (documents : List Document) :
    Enumerates (fun place warning => ∃ x, FirstDefinitionAt m.ids documents place x ∧
        (∀ site r, ReferenceAt m documents site r → r.id ≠ x.id) ∧ warning = x.unusedWarning)
      (register m documents).2.unusedWarnings := by
  have hrecorded := (register_definitionsExact m documents).recorded
  refine ((hrecorded.filter _).map _).congr fun place warning => ?_
  refine exists_congr fun x => ?_
  have hnone : ((register m documents).2.referencesTo x.id).isEmpty = true ↔
      ∀ site r, ReferenceAt m documents site r → r.id ≠ x.id := by
    rw [IdRegistry.isEmpty_referencesTo_iff, references_register]
    simp only [(references_enumerates m documents).mem_iff]
    exact ⟨fun hall site r hr => hall r ⟨site, hr⟩, fun hall r ⟨site, hr⟩ => hall site r hr⟩
  rw [hnone, and_assoc]

/-- Whatever errors on cycles are added, the references in the report are exact. -/
theorem reportWith_referencesExact {m : Metadata} {documents : List Document}
    {options : ReferenceOptions} {cycles : List Diagnostic}
    (hcode : ∀ d ∈ cycles, d.code = .hierarchyCycle) :
    ReferencesExact m documents options (reportWith m documents options cycles) := by
  have hreferences := references_enumerates m documents
  refine ⟨fun id => ?_, ⟨?_, fun id => ?_⟩, ?_, ?_, ?_⟩
  · change Enumerates _ (((register m documents).2.referenced.lookup id).getD [])
    rw [IdRegistry.lookup_referenced]
    exact (hreferences.filter _).congr fun site r => by simp
  · change ((register m documents).2.referenced.map (·.1)).Nodup
    simpa [IdRegistry.referenced, Function.comp_def] using IdRegistry.nodup_referencedIds _
  · change id ∈ (register m documents).2.referenced.map (·.1) ↔ _
    simp only [IdRegistry.referenced, List.map_map, Function.comp_def, List.map_id']
    rw [IdRegistry.mem_referencedIds_iff, references_register]
    simp only [hreferences.mem_iff]
    constructor
    · rintro ⟨r, ⟨site, hr⟩, hid⟩
      exact ⟨site, r, hr, hid⟩
    · rintro ⟨site, r, hr, hid⟩
      exact ⟨r, ⟨site, hr⟩, hid⟩
  · rw [filter_reference hcode (Or.inl rfl)]
    exact undefined_enumerates m documents
  · rw [filter_reference hcode (Or.inr rfl)]
    exact wrongType_enumerates m documents
  · change if options.suppressUnused then
      (if options.suppressUnused then [] else (register m documents).2.unusedWarnings) = []
      else Enumerates _
        (if options.suppressUnused then [] else (register m documents).2.unusedWarnings)
    split
    · rfl
    · exact unused_enumerates m documents

/-- The check records every reference of the documents and finds exactly those that are undefined or
of a wrong type, and exactly the identifiers that are not used. Only the search for cycles can make
it fail, and what was found before is then exact as well. -/
theorem checkReferences_resolves_references (m : Metadata) (documents : List Document)
    (options : ReferenceOptions) :
    match checkReferences m documents options with
    | .ok report => ReferencesExact m documents options report
    | .error owner =>
      options.checkHierarchy = true ∧ ∃ found, ReferencesExact m documents options found ∧
        found.registry.cycleErrors m = .error owner := by
  rw [checkReferences_eq]
  cases hcycles : hierarchyErrors m documents options with
  | ok cycles => exact reportWith_referencesExact (code_of_hierarchyErrors hcycles)
  | error owner =>
    obtain ⟨hasked, herror⟩ := hierarchyErrors_eq_error hcycles
    refine ⟨hasked, reportWith m documents options [], ?_, herror⟩
    exact reportWith_referencesExact (by simp)

end Workspace

end BusinessModel
