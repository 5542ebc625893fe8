import BusinessModel.Proofs.Yaml.Interruption

/-!
What comes of reading a text: a document, an issue, or an interruption. A document comes without
errors, and with a warning exactly if nothing tells its type. An issue comes without a document and
without warnings. Only errors that no issue stands for interrupt reading.
-/

namespace BusinessModel

open Yaml

/-- An error that comes up where the events of a text are loaded as they are: the events end with it,
their edition is unknown, or a scalar or an ordered map among their nodes has no value. -/
inductive Yaml.EventStream.Interrupts (s : EventStream) : Error → Prop where
  | events {e} : s.failure = some e → Interrupts s e
  | edition : Edition.ofVersion s.version = .unknown → Interrupts s .unknownEdition
  | scalar {root anchor tag text place e} : Node.ofEvents? s = .ok (some root) →
      (Node.scalar anchor tag text place).IsIn root →
      Datum.ofText (.ofVersion s.version) tag anchor.isSome place text = .error e → Interrupts s e
  | orderedMap {root anchor place items e} : Node.ofEvents? s = .ok (some root) →
      (Node.sequence anchor .orderedMap place items).IsIn root →
      e = .scalarText ∨ e = .repeatedOrderedKey → Interrupts s e

/-- An error of loading events is reported or interrupts them. -/
theorem Yaml.interrupts_of_load {discipline : Discipline} {s : EventStream} {e : Error}
    (h : Yaml.load discipline s = .error e) (hreported : ¬ e.IsReported) : s.Interrupts e := by
  rcases bind_eq_error_iff.mp h with h | ⟨root?, hroot, h⟩
  · rcases Node.ofEvents?_eq_error h with he | he | ⟨hedition, rfl⟩
    · exact absurd he hreported
    · exact .events he
    · exact .edition hedition
  · cases root? with
    | none => cases h
    | some root =>
      have hload := Loading.ends_load (l := ⟨discipline, .ofVersion s.version, root.anchored⟩) rfl
        (2 * maxNesting + 8) false [] root .self
      cases hresult : Loading.load ⟨discipline, .ofVersion s.version, root.anchored⟩
          (2 * maxNesting + 8) false [] root with
      | ok v => simp [Loaded.ofNode, hresult] at h
      | error f =>
        obtain ⟨round, e'⟩ := f
        simp only [Loaded.ofNode, hresult] at h
        cases h
        cases hload.of_error hresult with
        | reported he => exact absurd he hreported
        | scalar hin hvalue => exact .scalar hroot hin hvalue
        | orderedMap hin he => exact .orderedMap hroot hin he

/-- The name of the file and the keys at the top leave the type of the content open. -/
def TypeUnknown (filename : Option String) (c : Content) : Prop :=
  typeOfFileName (filename.filter (!·.isEmpty)) = none ∧ typeOfContent contentSignatures c = none

/-- A result with a document: no error, and a warning exactly if the type is unknown. -/
structure ParseResult.IsDocument (r : ParseResult) (filename : Option String) (d : Document) :
    Prop where
  document_eq : r.document = some d
  errors_eq : r.errors = []
  warnings_of_unknown : TypeUnknown filename d.content → r.warnings = [unknownTypeIssue]
  warnings_of_known : ¬ TypeUnknown filename d.content → r.warnings = []

/-- A result without a document: one error, about the syntax or the safety of the text. -/
def ParseResult.IsRefusal (r : ParseResult) : Prop :=
  ∃ i : Issue, r = .failed i ∧ (i.code = .yamlSyntax ∨ i.code = .yamlSafety)

theorem Refusal.isRefusal (r : Refusal) : (ParseResult.failed r.issue).IsRefusal :=
  ⟨r.issue, rfl, .inr rfl⟩

theorem isRefusal_of_issueOf? {e : Error} {i : Issue} (h : issueOf? e = some i) :
    (ParseResult.failed i).IsRefusal := by
  refine ⟨i, rfl, ?_⟩
  cases e with
  | marked e =>
    cases h
    exact .inl rfl
  | character c index =>
    cases h
    exact .inl rfl
  | nesting =>
    cases h
    exact .inr rfl
  | _ => cases h

/-- A loaded value is a document or is refused for its size or depth. -/
theorem Document.ofLoaded_cases (limits : Limits) (text : String) (filename : Option String)
    (v : Loaded) :
    (∃ d, (Document.ofLoaded limits text filename v).IsDocument filename d) ∨
      (Document.ofLoaded limits text filename v).IsRefusal := by
  unfold Document.ofLoaded
  extract_lets layout
  cases (layout.buildRoot v).run {} with
  | error r => exact .inr r.isRefusal
  | ok built =>
    obtain ⟨content, s⟩ := built
    refine .inl ⟨_, rfl, rfl, ?_, ?_⟩
    · rintro ⟨hname, hkeys⟩
      simp [hname, hkeys]
    · intro hknown
      refine if_neg fun hnone => hknown ?_
      simpa [TypeUnknown] using hnone

theorem isReported_of_events {cs : List Char} {e : Error} (h : Yaml.events cs = .error e) :
    e.IsReported := by
  unfold Yaml.events at h
  split at h
  · cases h
    rfl
  · cases h

/-- Reading is interrupted exactly by the errors of loading that no issue stands for; otherwise it
yields a document or an issue. -/
theorem Document.parse_cases (limits : Limits) (text : String) (filename : Option String) :
    (∃ r, Document.parse limits text filename = .ok r ∧
      ((∃ d, r.IsDocument filename d) ∨ r.IsRefusal)) ∨
    ∃ e events, Document.parse limits text filename = .error e ∧ ¬ e.IsReported ∧
      Yaml.events text.toList = .ok events ∧ Yaml.load .lenient events = .error e := by
  unfold Document.parse
  extract_lets cs report
  have hreport (e : Error) (he : e.IsReported) :
      ∃ i, report e = .ok (.failed i) ∧ issueOf? e = some i := by
    obtain ⟨i, hi⟩ := Option.isSome_iff_exists.mp he
    exact ⟨i, by simp only [report, hi], hi⟩
  split
  · exact .inl ⟨_, rfl, .inr (Refusal.isRefusal _)⟩
  · cases hevents : Yaml.events cs with
    | error e =>
      obtain ⟨i, heq, hi⟩ := hreport e (isReported_of_events hevents)
      exact .inl ⟨_, heq, .inr (isRefusal_of_issueOf? hi)⟩
    | ok events =>
      dsimp only
      split
      · exact .inl ⟨_, rfl, .inr (Refusal.isRefusal _)⟩
      · cases hload : Yaml.load .lenient events with
        | ok v => exact .inl ⟨_, rfl, Document.ofLoaded_cases limits text filename v⟩
        | error e =>
          by_cases he : e.IsReported
          · obtain ⟨i, heq, hi⟩ := hreport e he
            exact .inl ⟨_, heq, .inr (isRefusal_of_issueOf? hi)⟩
          · refine .inr ⟨e, events, ?_, he, rfl, hload⟩
            simp only [report, Option.not_isSome_iff_eq_none.mp he]

/-- The text is neither too long nor refused for its anchors, and it is loaded as the value. -/
def Document.Loads (limits : Limits) (text : String) (v : Loaded) : Prop :=
  (text.toList.length : Int) ≤ limits.maxSize ∧ ∃ events, Yaml.events text.toList = .ok events ∧
    ¬ (anchorLike true text.toList = true ∧ events.hasAnchor = true) ∧
    Yaml.load .lenient events = .ok v

/-- A text that loads a value has the result of the value. -/
theorem Document.parse_of_loads {limits : Limits} {text : String} {v : Loaded}
    (h : Document.Loads limits text v) (filename : Option String) :
    Document.parse limits text filename = .ok (Document.ofLoaded limits text filename v) := by
  obtain ⟨hsize, events, hevents, hanchors, hload⟩ := h
  have hfound : ¬ (anchorLike true text.toList && events.hasAnchor) = true := by
    rwa [Bool.and_eq_true]
  unfold Document.parse
  extract_lets cs report
  rw [if_neg (Int.not_lt.mpr hsize), hevents]
  dsimp only
  rw [if_neg hfound, hload]

/-- Whatever reading yields, it comes of a loaded value, of a refusal, or of a reported error. -/
theorem Document.origin_of_parse {limits : Limits} {text : String} {filename : Option String}
    {r : ParseResult} (h : Document.parse limits text filename = .ok r) :
    (∃ v, Document.Loads limits text v ∧ r = Document.ofLoaded limits text filename v) ∨
      (∃ refusal : Refusal, r = .failed refusal.issue) ∨
      ∃ e i, issueOf? e = some i ∧ r = .failed i := by
  unfold Document.parse at h
  extract_lets cs report at h
  have hreport {e : Error} (hx : report e = .ok r) : ∃ e i, issueOf? e = some i ∧ r = .failed i := by
    simp only [report] at hx
    split at hx
    · next i hi => exact ⟨e, i, hi, (Except.ok.inj hx).symm⟩
    · cases hx
  split at h
  · exact .inr (.inl ⟨_, (Except.ok.inj h).symm⟩)
  · next hsize =>
    split at h
    · exact .inr (.inr (hreport h))
    · next events hevents =>
      split at h
      · exact .inr (.inl ⟨_, (Except.ok.inj h).symm⟩)
      · next hanchors =>
        split at h
        · exact .inr (.inr (hreport h))
        · next v hload =>
          rw [Bool.and_eq_true] at hanchors
          exact .inl ⟨v, ⟨Int.not_lt.mp hsize, events, hevents, hanchors, hload⟩,
            (Except.ok.inj h).symm⟩

end BusinessModel
