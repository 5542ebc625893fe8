import BusinessModel.Diagnostic.FindingAdvice
import BusinessModel.Proofs.Outcome

/-!
Every finding is explained, with the message of its keyword or with that of the schema engine, as long
as the violated schema can be read and no identifier of a pattern is longer than a text can be.

What a keyword's advice needs is guarded: if it does not have its form, the message of the engine is
kept. The names and examples of the violated schema are read outside that guard, and so a schema with
other names than texts, or with examples of which there is no first, keeps its findings from being
explained at all.
-/

namespace BusinessModel

open Schema

/-- The properties that the violated schema of a finding declares. -/
def Finding.properties (f : Finding) : List (Value × Value) :=
  (((f.schema.getD .null).get? "properties").getD .null).entries

/-- The violated schema can be read: the properties have texts as names, and what is set as examples
of a property has a first one. -/
structure Finding.IsReadable (f : Finding) : Prop where
  named : ∀ p ∈ f.properties, ∃ name, p.1 = .str name
  sampled : ∀ p ∈ f.properties, ∀ samples, p.2.get? "examples" = some samples →
    samples.isSet = true → ∃ v, Block.first samples = .ok v

namespace AdviceContext

theorem exists_sampleOf?_iff (property : Value) :
    (∃ v, sampleOf? property = .ok v) ↔ ∀ samples, property.get? "examples" = some samples →
      samples.isSet = true → ∃ v, Block.first samples = .ok v := by
  rw [sampleOf?]
  cases hsamples : (property.get? "examples").filter Value.isSet with
  | none =>
    refine iff_of_true ⟨none, rfl⟩ fun samples hsome hset => ?_
    rw [hsome, Option.filter_some, if_pos hset] at hsamples
    cases hsamples
  | some samples =>
    obtain ⟨hsome, hset⟩ := Option.filter_eq_some_iff.mp hsamples
    have hfirst : (∃ v, ((some <$> Block.first samples).mapError ContextFault.noFirst) = .ok v) ↔
        ∃ v, Block.first samples = .ok v := by
      cases Block.first samples with
      | error e => exact iff_of_false (by rintro ⟨v, ⟨⟩⟩) (by rintro ⟨v, ⟨⟩⟩)
      | ok v => exact iff_of_true ⟨some v, rfl⟩ ⟨v, rfl⟩
    rw [hfirst]
    constructor
    · intro h samples' hsome' _
      rw [hsome] at hsome'
      cases hsome'
      exact h
    · intro h
      exact h samples hsome hset

theorem exists_samplesOf_iff (properties : List (Value × Value)) :
    (∃ vs, samplesOf properties = .ok vs) ↔ ∀ p ∈ properties, ∃ v, sampleOf? p.2 = .ok v := by
  rw [samplesOf, exists_bind_pure_iff, exists_mapM_eq_ok_iff]
  exact forall₂_congr fun p _ => exists_bind_pure_iff

theorem exists_namesOf_iff (names : List Value) :
    (∃ ss, namesOf names = .ok ss) ↔ ∀ v ∈ names, ∃ s, v = .str s := by
  rw [namesOf, exists_mapM_eq_ok_iff]
  refine forall₂_congr fun v _ => ?_
  split <;> simp_all

/-- A context can be made from a schema exactly if that can be read. -/
theorem exists_ofFinding_iff (f : Finding) : (∃ c, ofFinding f = .ok c) ↔ f.IsReadable := by
  have hparts : (∃ c, ofFinding f = .ok c) ↔ (∃ vs, samplesOf f.properties = .ok vs) ∧
      ∃ ss, namesOf (f.properties.map (·.1)) = .ok ss := by
    change (∃ c, (samplesOf f.properties >>= fun samples =>
      namesOf (f.properties.map (·.1)) >>= fun validProperties => _) = .ok c) ↔ _
    cases samplesOf f.properties with
    | error e => simp [bind, Except.bind]
    | ok vs =>
      cases namesOf (f.properties.map (·.1)) <;> simp [bind, Except.bind, pure, Except.pure]
  rw [hparts, exists_samplesOf_iff, exists_namesOf_iff]
  simp only [exists_sampleOf?_iff, List.forall_mem_map]
  exact ⟨fun h => ⟨h.2, h.1⟩, fun h => ⟨h.sampled, h.named⟩⟩

end AdviceContext

/-! ### Advice on a pattern -/

namespace PatternAdvice

/-- A pattern of identifiers that ask for more digits than a text can have. -/
def IsTooWide (pattern : String) : Prop :=
  ∃ p width, idPattern? pattern = some p ∧ p.width = .ok width ∧ maxWidth < width

variable {pattern : String} {p : IdPattern}

theorem ends_width : Ends (· = .unusable) (fun width => p.width = .ok width) p.width := by
  unfold IdPattern.width
  cases integerOfText (String.ofList p.digits) with
  | ok width => exact .ok rfl
  | error e => exact .error rfl

/-- Digits are filled with zeros unless the pattern is too wide. -/
theorem ends_filled {digits : String} {width : Nat} (hp : idPattern? pattern = some p)
    (hwidth : p.width = .ok width) :
    Ends (fun e => e = .unusable ∨ IsTooWide pattern) (fun _ => True) (filled width digits) := by
  rw [filled]
  split
  · next hwide => exact .error (.inr ⟨p, width, hp, hwidth, hwide⟩)
  · exact .ok trivial

theorem ends_hint (pattern : String) :
    Ends (fun e => e = .unusable ∨ IsTooWide pattern) (fun _ => True) (hint pattern) := by
  rw [hint]
  cases hp : idPattern? pattern with
  | none => exact .ok trivial
  | some p =>
    refine .bind (ends_width.mono (fun _ => .inl) fun _ h => h) fun width hwidth => ?_
    exact .bind (ends_filled hp hwidth) fun _ _ => .ok trivial

theorem ends_idDigits? (value pattern : String) :
    Ends (fun e => e = .unusable ∨ IsTooWide pattern) (fun _ => True) (idDigits? value pattern) := by
  rw [idDigits?]
  split
  · next p letters digits hp _ =>
    refine .bind (ends_width.mono (fun _ => .inl) fun _ h => h) fun width hwidth => ?_
    dsimp only
    split
    · exact .ok trivial
    · refine .bind (ends_filled hp hwidth) fun fixed _ => ?_
      split
      · exact .ok trivial
      · split
        · exact .ok trivial
        · exact .ok trivial
  · exact .ok trivial

theorem ends_suggestion? (value pattern : String) :
    Ends (fun e => e = .unusable ∨ IsTooWide pattern) (fun _ => True)
      (suggestion? value pattern) := by
  rw [suggestion?]
  split
  · exact .ok trivial
  · refine .bind (ends_idDigits? value pattern) fun found _ => ?_
    split
    · exact .ok trivial
    · exact .ok trivial

end PatternAdvice

/-! ### Advice on a keyword -/

namespace FindingAdvice

/-- The pattern that a text does not match. -/
def patternOf (f : Finding) : String := ((f.param? "pattern").map Value.text).getD ""

/-- The message on a finding by its keyword. -/
def keywordMessage (f : Finding) : String :=
  match f.keyword with
  | "additionalProperties" => "Unknown property: \"" ++ undeclaredName f ++ "\""
  | "enum" => "Invalid value: \"" ++ valueText f ++ "\""
  | "pattern" => "Invalid format: \"" ++ valueText f ++ "\""
  | "required" =>
    "Missing required property: \"" ++ ((f.param? "missingProperty").map Value.text).getD "" ++ "\""
  | "type" => "Type mismatch: expected " ++ ((f.param? "type").map Value.text).getD "unknown" ++
      ", got " ++ (typeName f.data).text
  | _ => plainMessage f

variable {hints : Hints} {f : Finding} {context : AdviceContext}

theorem ends_usable {α : Type} (x : Except Malformed α) :
    Ends (· = .unusable) (fun _ => True) (usable x) := by
  cases x with
  | error e => exact .error rfl
  | ok a => exact .ok trivial

theorem message_ofUndeclared : (ofUndeclared hints f context).message =
    "Unknown property: \"" ++ undeclaredName f ++ "\"" := by
  rw [ofUndeclared]
  split
  · rfl
  · rfl

theorem ends_ofEnum : Ends (· = .unusable)
    (fun a => a.message = "Invalid value: \"" ++ valueText f ++ "\"") (ofEnum hints f) := by
  refine .bind (ends_usable _) fun members _ => .bind (Q := fun _ => True) ?_ fun mistake _ => .ok rfl
  refine .bind (ends_usable _) fun about _ => .bind (ends_usable _) fun mistakes _ => ?_
  split
  · exact .ok trivial
  · exact .ok trivial

theorem ends_schemaPatternHint :
    Ends (· = .unusable) (fun _ => True) (schemaPatternHint f) := by
  rw [schemaPatternHint]
  dsimp only
  split
  · exact .ok trivial
  · refine .bind (ends_usable _) fun about _ => .bind (Q := fun _ => True) ?_ fun _ _ => .ok trivial
    cases (((f.schema.getD .null).get? "examples").filter Value.isSet) with
    | none => exact .ok trivial
    | some samples => exact .bind (ends_usable _) fun _ _ => .ok trivial

theorem ends_ofPattern :
    Ends (fun e => e = .unusable ∨ PatternAdvice.IsTooWide (patternOf f))
      (fun a => a.message = "Invalid format: \"" ++ valueText f ++ "\"") (ofPattern hints f context) := by
  refine .bind (Q := fun _ => True) ?_ fun _ _ =>
    .bind (PatternAdvice.ends_suggestion? _ _) fun _ _ => .ok rfl
  refine .bind (ends_schemaPatternHint.mono (fun _ => .inl) fun _ h => h) fun found _ => ?_
  split
  · exact .ok trivial
  · split
    · exact .ok trivial
    · exact PatternAdvice.ends_hint _

theorem ends_ofMissing : Ends (· = .unusable)
    (fun a => a.message = "Missing required property: \"" ++
      ((f.param? "missingProperty").map Value.text).getD "" ++ "\"") (ofMissing hints f context) := by
  rw [ofMissing]
  dsimp only
  split
  · split
    · exact .ok rfl
    · exact .ok rfl
    · exact .error rfl
  · exact .ok rfl

/-- The advice on a keyword has the message of the keyword. It cannot be made if what it is made from
does not have its form, and, for a pattern that is too wide, if it would be too long. -/
theorem ends_ofKeyword :
    Ends (fun e => e = .unusable ∨
        f.keyword = "pattern" ∧ PatternAdvice.IsTooWide (patternOf f))
      (fun a => a.message = keywordMessage f) (ofKeyword hints f context) := by
  unfold ofKeyword
  split
  · next hkeyword =>
    rw [keywordMessage, hkeyword]
    exact .ok message_ofUndeclared
  · next hkeyword =>
    rw [keywordMessage, hkeyword]
    exact ends_ofEnum.mono (fun _ h => .inl h) fun _ h => h
  · next hkeyword =>
    rw [keywordMessage, hkeyword]
    exact ends_ofPattern.mono (fun _ h => h.imp_right fun hwide => ⟨rfl, hwide⟩) fun _ h => h
  · next hkeyword =>
    rw [keywordMessage, hkeyword]
    exact ends_ofMissing.mono (fun _ h => .inl h) fun _ h => h
  · next hkeyword =>
    rw [keywordMessage, hkeyword]
    exact .ok rfl
  · next hkeyword =>
    rw [keywordMessage, hkeyword]
    exact .ok rfl
  · next hkeyword =>
    rw [keywordMessage, hkeyword]
    exact .ok rfl
  · unfold keywordMessage
    split
    all_goals first | contradiction | exact .ok rfl

end FindingAdvice

/-! ### The whole advice on a finding -/

namespace Finding

variable {f : Finding} {hints : Hints}

/-- The advice in a given context or that of the violated schema. -/
theorem advice_eq (f : Finding) (hints : Hints) (context : Option AdviceContext) :
    f.advice hints context =
      (match context with
        | some c => .ok c
        | none => (AdviceContext.ofFinding f).mapError .context) >>= fun c =>
          match FindingAdvice.ofKeyword hints f c with
          | .ok a => .ok a
          | .error .unusable => .ok { message := FindingAdvice.plainMessage f }
          | .error .tooLong => .error .tooLong := by
  cases context with
  | some c => rfl
  | none => rfl

/-- A diagnostic has the advice on its finding. -/
theorem diagnostic_eq_ok (document : Option Document) {context : Option AdviceContext} {a : Advice}
    (h : f.advice hints context = .ok a) :
    ∃ d, f.diagnostic hints document context = .ok d ∧ d.toAdvice = a := by
  rw [diagnostic, h]
  exact ⟨_, rfl, rfl⟩

end Finding

end BusinessModel
