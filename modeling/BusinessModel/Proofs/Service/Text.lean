import BusinessModel.Proofs.Document.Parsing
import BusinessModel.Proofs.Service.Gathering

/-!
Checking a text is checking the document that is read from it: nothing of the reading shows in the
result but what keeps the text from being a document. An unknown type, which reading warns of, is
warned of once, by the check.
-/

namespace BusinessModel

open Schema

/-! ### Issues of texts -/

/-- An issue with a line has a column too. Columns count from one. -/
theorem Document.column_of_mem_errors {limits : Limits} {text : String} {filename : Option String}
    {r : ParseResult} (h : Document.parse limits text filename = .ok r) {i : Issue}
    (hi : i ∈ r.errors) :
    i.line = none ∧ i.column = none ∨
      ∃ line column, i.line = some line ∧ i.column = some column ∧ 0 < column := by
  have hrefusal (refusal : Refusal) (heq : i = refusal.issue) :
      i.line = none ∧ i.column = none := by
    rw [heq]
    exact ⟨rfl, rfl⟩
  rcases Document.origin_of_parse h with ⟨v, _, rfl⟩ | ⟨refusal, rfl⟩ | ⟨e, i', he, rfl⟩
  · unfold Document.ofLoaded at hi
    extract_lets layout at hi
    split at hi
    · exact .inl (hrefusal _ (List.mem_singleton.mp hi))
    · cases hi
  · exact .inl (hrefusal _ (List.mem_singleton.mp hi))
  · cases List.mem_singleton.mp hi
    cases e with
    | marked e =>
      cases he
      exact .inr ⟨_, _, rfl, rfl, by omega⟩
    | character c index =>
      cases he
      exact .inl ⟨rfl, rfl⟩
    | nesting =>
      cases he
      exact .inl ⟨rfl, rfl⟩
    | _ => cases he

/-- The diagnostic reports the issue as an error in the file, with the code, the words, and the line
and column of the issue so far as it has them. -/
structure Issue.IsReportedBy (i : Issue) (file : String) (x : Diagnostic) : Prop where
  severity_eq : x.severity = .error
  code_eq : x.code = i.code
  message_eq : x.message = i.message
  filepath_eq : x.filepath = some file
  file_eq : ∀ span, x.span = some span → span.file = file
  line_eq : x.span.map (·.line) = i.line
  column_eq : x.span.map (·.column) = i.column

theorem Issue.isReportedBy_diagnostic {i : Issue} (file : String)
    (h : i.line = none ∧ i.column = none ∨
      ∃ line column, i.line = some line ∧ i.column = some column ∧ 0 < column) :
    i.IsReportedBy file (i.diagnostic file .error) := by
  rcases h with ⟨hline, hcolumn⟩ | ⟨line, column, hline, hcolumn, hpos⟩
  · constructor <;> simp [Issue.diagnostic, hline, hcolumn]
  · have hne : column ≠ 0 := by omega
    constructor <;> simp [Issue.diagnostic, hline, hcolumn, hne]

/-! ### Warnings on unknown types -/

namespace Workspace

/-- The check of references reports nothing on unknown types. -/
theorem code_ne_unknownDocumentType {m : Metadata} {documents : List Document}
    {options : ReferenceOptions} {report : ReferenceReport}
    (h : checkReferences m documents options = .ok report) :
    ∀ x ∈ report.errors ++ report.warnings, x.code ≠ .unknownDocumentType := by
  rw [checkReferences_eq] at h
  cases hcycles : hierarchyErrors m documents options with
  | error owner => simp [hcycles, Except.map] at h
  | ok cycles =>
    rw [hcycles] at h
    cases h
    intro x hx
    rcases List.mem_append.mp hx with herror | hwarning
    · rcases List.mem_append.mp herror with herror | hcycle
      · rcases List.mem_append.mp herror with herror | hmultiplicity
        · rcases List.mem_append.mp herror with hduplicate | hreference
          · simp [IdRegistry.code_of_mem_defineAll x hduplicate]
          · obtain ⟨r, _, hx⟩ := List.mem_flatMap.mp hreference
            rcases Reference.code_of_mem_errors x hx with hcode | hcode <;> simp [hcode]
        · split at hmultiplicity
          · simp [code_of_mem_multiplicityErrors x hmultiplicity]
          · cases hmultiplicity
      · simp [code_of_hierarchyErrors hcycles x hcycle]
    · have hwarning : x ∈ if options.suppressUnused then []
          else (register m documents).2.unusedWarnings := hwarning
      split at hwarning
      · cases hwarning
      · obtain ⟨y, _, rfl⟩ := List.mem_map.mp hwarning
        exact Code.noConfusion

end Workspace

namespace Service

variable {s : Service} {d : Document} {r : ValidationResult}

/-- The diagnostics of a result on unknown types. -/
def unknownTypes (r : ValidationResult) : List Diagnostic :=
  (r.errors ++ r.warnings).filter (·.code == .unknownDocumentType)

/-- Advice changes no codes, so the check of references reports nothing on unknown types. -/
theorem code_of_referenceResult {documents : List Document}
    (h : s.referenceResult documents = .ok r) :
    ∀ x ∈ r.errors ++ r.warnings, x.code ≠ .unknownDocumentType := by
  obtain ⟨report, hreport, rfl⟩ := referenceResult_eq_ok_iff.mp h
  intro x hx
  dsimp only at hx
  rw [← List.map_append] at hx
  obtain ⟨y, hy, rfl⟩ := List.mem_map.mp hx
  obtain ⟨suggestion, hint, validOptions, hadvised⟩ :=
    ReferenceAdvice.advisedAs_advise (some s.adviser) report.registry y
  rw [adviseOn, hadvised]
  exact Workspace.code_ne_unknownDocumentType hreport y hy

/-- A document without a type is reported once by its own check. -/
theorem unknownTypes_documentResult (h : s.documentResult d = .ok r) :
    r.errors.filter (·.code == .unknownDocumentType) = [] ∧
      r.warnings.filter (·.code == .unknownDocumentType) =
        if d.type.isNone then [d.unknownTypeWarning] else [] := by
  unfold documentResult at h
  split at h
  · next htype =>
    cases h
    refine ⟨rfl, ?_⟩
    rw [htype, Option.isNone_none, if_pos rfl]
    exact List.filter_cons_of_pos rfl
  · next type htype =>
    obtain ⟨found, _, h⟩ := bind_eq_ok_iff.mp h
    obtain ⟨errors, herrors, h⟩ := bind_eq_ok_iff.mp h
    cases h
    refine ⟨List.filter_eq_nil_iff.mpr fun x hx => ?_, by simp [htype]⟩
    obtain ⟨f, _, hf⟩ := exists_of_mem_mapM herrors hx
    obtain ⟨advice, _, hx⟩ := bind_eq_ok_iff.mp (mapError_eq_ok_iff.mp hf)
    rw [← Except.ok.inj hx]
    exact Bool.false_ne_true

/-- A document without a type is reported once by the check of it as a workspace. -/
theorem unknownTypes_workspaceResult (h : s.workspaceResult [d] = .ok r) :
    r.errors.filter (·.code == .unknownDocumentType) = [] ∧
      r.warnings.filter (·.code == .unknownDocumentType) =
        if d.type.isNone then [d.unknownTypeWarning] else [] := by
  obtain ⟨results, references, hresults, hreferences, rfl⟩ := workspaceResult_eq_ok_iff.mp h
  obtain ⟨own, _, hown, hnil, rfl⟩ := List.forall₂_cons_left_iff.mp hresults
  cases hnil
  obtain ⟨herrors, hwarnings⟩ := unknownTypes_documentResult hown
  have hnone (xs : List Diagnostic) (hxs : xs ⊆ references.errors ++ references.warnings) :
      xs.filter (·.code == .unknownDocumentType) = [] :=
    List.filter_eq_nil_iff.mpr fun x hx => by
      simpa using code_of_referenceResult hreferences x (hxs hx)
  constructor
  · exact (List.filter_append ..).trans
      (by rw [herrors, List.foldr_nil, hnone _ (List.subset_append_left ..), List.append_nil])
  · exact (List.filter_append ..).trans
      (by rw [hwarnings, List.foldr_nil, hnone _ (List.subset_append_right ..), List.append_nil])

/-- Grading a result changes the weight of its warnings at most. -/
theorem unknownTypes_graded {plain : ValidationResult} {w : Option Diagnostic}
    (herrors : plain.errors.filter (·.code == .unknownDocumentType) = [])
    (hwarnings : plain.warnings.filter (·.code == .unknownDocumentType) = w.toList)
    (strict : Bool) : unknownTypes (plain.graded strict) =
      (w.map fun x => if strict then x.asError else x).toList := by
  cases strict with
  | false =>
    rw [unknownTypes, List.filter_append]
    change List.filter _ plain.errors ++ List.filter _ plain.warnings = _
    rw [herrors, hwarnings]
    simp
  | true =>
    rw [unknownTypes, List.filter_append]
    change List.filter _ (plain.errors ++ plain.warnings.map Diagnostic.asError) ++ [] = _
    rw [List.filter_append, herrors, List.filter_map]
    change [] ++ List.map _ (List.filter (·.code == .unknownDocumentType) plain.warnings) ++ [] = _
    rw [hwarnings]
    cases w <;> rfl

/-- The check of a document as a workspace warns of an unknown type once, and of nothing of the kind
if there is a type. -/
theorem unknownTypes_validate {strict : Option Bool} (h : s.validate [d] strict = .ok r) :
    unknownTypes r = if d.type.isNone then
      [{ d.unknownTypeWarning with
          severity := if s.strictness strict then .error else .warning }] else [] := by
  rw [validate_eq] at h
  cases hresult : s.workspaceResult [d] with
  | error e => simp [hresult, Except.map] at h
  | ok plain =>
    rw [hresult] at h
    cases h
    obtain ⟨herrors, hwarnings⟩ := unknownTypes_workspaceResult hresult
    cases htype : d.type with
    | none =>
      rw [htype, Option.isNone_none, if_pos rfl] at hwarnings
      rw [unknownTypes_graded (w := some d.unknownTypeWarning) herrors hwarnings]
      cases s.strictness strict <;> rfl
    | some type =>
      rw [htype, Option.isNone_some, if_neg Bool.false_ne_true] at hwarnings
      exact unknownTypes_graded (w := none) herrors hwarnings _

/-! ### Reading and checking -/

/-- Reading a document leaves nothing to report but what the check reports again. -/
theorem parsingResult_of_isDocument {p : ParseResult} {filename : Option String}
    (h : p.IsDocument filename d) (file : String) : parsingResult p file = {} := by
  have hwarnings : p.warnings.filter (·.code != .unknownDocumentType) = [] := by
    by_cases hunknown : TypeUnknown filename d.content
    · rw [h.warnings_of_unknown hunknown]
      rfl
    · rw [h.warnings_of_known hunknown]
      rfl
  rw [parsingResult, h.errors_eq, hwarnings]
  rfl

/-- A text that is read as a document has the result of checking the document. -/
theorem parseAndValidate_of_isDocument {text : String} {filename : Option String}
    {p : ParseResult} (hparse : Document.parse {} text filename = .ok p)
    (h : p.IsDocument filename d) (strict : Option Bool) :
    s.parseAndValidate text filename strict = s.validate [d] strict := by
  rw [parseAndValidate, hparse, validate_eq]
  simp only [Except.mapError, bind, Except.bind, h.document_eq, parsingResult_of_isDocument h]
  cases s.workspaceResult [d] with
  | error e => rfl
  | ok plain => rfl

/-- A text that is refused has a result of nothing but the refusal. -/
theorem parseAndValidate_of_isRefusal {text : String} {filename : Option String} {i : Issue}
    (hparse : Document.parse {} text filename = .ok (.failed i)) (strict : Option Bool) :
    s.parseAndValidate text filename strict =
      .ok { errors := [i.diagnostic (Document.reportedFile filename) .error] } := by
  rw [parseAndValidate, hparse]
  simp only [Except.mapError, bind, Except.bind]
  cases s.strictness strict <;> rfl

/-- Checking a text is checking the document that is read from it, as the only one of a workspace:
the result is the same, and it reports an unknown type once. A text that no document is read from has
a result of what is wrong with the text, each issue an error in the file, and nothing else. Reading
that is interrupted interrupts the check. -/
theorem parseAndValidate_checks_parsed (s : Service) (text : String) (filename : Option String)
    (strict : Option Bool) :
    match Document.parse {} text filename with
    | .error e => s.parseAndValidate text filename strict = .error (.text e)
    | .ok p =>
      (∀ d, p.document = some d →
        s.parseAndValidate text filename strict = s.validate [d] strict ∧
        ∀ r, s.parseAndValidate text filename strict = .ok r →
          unknownTypes r = if d.type.isNone then
            [{ d.unknownTypeWarning with
                severity := if s.strictness strict then .error else .warning }] else []) ∧
      (p.errors ≠ [] → ∃ r, s.parseAndValidate text filename strict = .ok r ∧ r.valid = false ∧
        List.Forall₂ (fun i x => i.IsReportedBy (Document.reportedFile filename) x)
          p.errors r.errors ∧ r.warnings = []) := by
  rcases Document.parse_cases {} text filename with ⟨p, hparse, ⟨d, hd⟩ | ⟨i, rfl, hi⟩⟩ |
    ⟨e, _, hparse, _, _, _⟩
  · rw [hparse]
    refine ⟨fun d' hd' => ?_, fun herrors => absurd hd.errors_eq herrors⟩
    cases hd.document_eq.symm.trans hd'
    have heq := parseAndValidate_of_isDocument (s := s) hparse hd strict
    refine ⟨heq, fun r hr => unknownTypes_validate (heq ▸ hr)⟩
  · rw [hparse]
    refine ⟨fun d hd => (nomatch hd), fun _ =>
      ⟨_, parseAndValidate_of_isRefusal hparse strict, rfl, ?_, rfl⟩⟩
    have hcolumn := Document.column_of_mem_errors hparse (List.mem_singleton_self i)
    exact .cons (Issue.isReportedBy_diagnostic _ hcolumn) .nil
  · rw [hparse, parseAndValidate, hparse]
    rfl

end Service

end BusinessModel
