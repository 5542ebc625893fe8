import BusinessModel.Proofs.Diagnostic.Explanation
import BusinessModel.Proofs.Text.Closest
import BusinessModel.Workspace.ReferenceAdvice

/-!
What diagnostics suggest for a mistyped name: nothing, what the schemas declare for exactly this
mistake, or the nearest of the options that the diagnostic lists.
-/

namespace BusinessModel

open Schema

/-- The advice is to take one of the listed options that is nearest to a word. -/
def Advice.SuggestsNearest (a : Advice) (word : String) : Prop :=
  ∃ c, Text.IsNearest word a.validOptions c ∧
    a.suggestion = some ("Did you mean: \"" ++ c ++ "\"?")

namespace FindingAdvice

/-- For a property that is not declared: the place where the schemas expect it, or the nearest of the
declared names. -/
theorem suggestion_ofUndeclared (hints : Hints) (f : Finding) (context : AdviceContext) :
    (ofUndeclared hints f context).suggestion = none ∨
      (∃ h, hints.nestedHint? (undeclaredName f) = some h ∧
        (ofUndeclared hints f context).suggestion = some h.hint) ∨
      (ofUndeclared hints f context).SuggestsNearest (undeclaredName f) := by
  dsimp only [ofUndeclared]
  cases hnested : (hints.nestedHint? (undeclaredName f)).filter fun h =>
      context.validProperties.isEmpty || context.validProperties.contains h.parent with
  | some h => exact .inr (.inl ⟨h, (Option.filter_eq_some_iff.mp hnested).1, rfl⟩)
  | none =>
    rcases Text.didYouMean_closest? (undeclaredName f) context.validProperties with hnone | ⟨c, hc, hsome⟩
    · exact .inl hnone
    · exact .inr (.inr ⟨c, hc, hsome⟩)

/-- For a wrong word: what the schemas say of it, or the nearest of the allowed words. -/
theorem suggestion_ofEnum {hints : Hints} {f : Finding} {a : Advice} (h : ofEnum hints f = .ok a) :
    a.suggestion = none ∨
      (∃ mistake, (schemaMistake? f (valueText f) = .ok (some mistake) ∨
          hints.enumMistake? (valueText f) (a.validOptions.map .str) f.propertyName? = some mistake) ∧
        a.suggestion = some mistake) ∨
      a.SuggestsNearest (valueText f) := by
  obtain ⟨members, _, h⟩ := bind_eq_ok_iff.mp h
  obtain ⟨declared, hdeclared, h⟩ := bind_eq_ok_iff.mp h
  obtain rfl := Except.ok.inj h
  dsimp only
  generalize (if !(members.map Value.text).isEmpty then members.map Value.text
    else (f.propertyName?.bind hints.enumValues?).getD []) = allowed
  cases hown : declared.filter (!·.isEmpty) with
  | some mistake =>
    refine .inr (.inl ⟨mistake, .inl ?_, by simp⟩)
    rw [hdeclared, (Option.filter_eq_some_iff.mp hown).1]
  | none =>
    cases hknown : (hints.enumMistake? (valueText f) (allowed.map .str) f.propertyName?).filter
        (!·.isEmpty) with
    | some mistake =>
      exact .inr (.inl ⟨mistake, .inr (Option.filter_eq_some_iff.mp hknown).1, by simp⟩)
    | none =>
      rcases Text.didYouMean_closest? (valueText f) allowed with hnone | ⟨c, hc, hsome⟩
      · exact .inl (by simpa using hnone)
      · exact .inr (.inr ⟨c, hc, by simpa using hsome⟩)

end FindingAdvice

/-- What is suggested on a finding is part of the advice of its keyword's own kind. -/
theorem Finding.suggestion_diagnostic {f : Finding} {hints : Hints} {document : Option Document}
    {context : Option AdviceContext} {d : Diagnostic}
    (h : f.diagnostic hints document context = .ok d) :
    d.suggestion = none ∨ ∃ context' a, FindingAdvice.ofKeyword hints f context' = .ok a ∧
      d.toAdvice = a := by
  obtain ⟨a, ha, h⟩ := bind_eq_ok_iff.mp h
  obtain rfl := Except.ok.inj h
  rw [advice_eq] at ha
  obtain ⟨context', -, ha⟩ := bind_eq_ok_iff.mp ha
  split at ha
  · next a' hkeyword =>
    obtain rfl := Except.ok.inj ha
    exact .inr ⟨context', a', hkeyword, rfl⟩
  · obtain rfl := Except.ok.inj ha
    exact .inl rfl
  · cases ha

/-- For an undefined reference: what has been suggested before, or the nearest of the identifiers with
the same letters. -/
theorem ReferenceAdvice.suggestion_onUndefined (m : Metadata) (registry : IdRegistry)
    (ref : Reference) (d : Diagnostic) :
    (onUndefined m registry ref d).suggestion = d.suggestion ∨
      (onUndefined m registry ref d).SuggestsNearest ref.id := by
  rcases Text.didYouMean_closest? ref.id (registry.idsWith ((m.ids.letters? ref.id).getD ""))
    with hnone | ⟨c, hc, hsome⟩
  · exact .inl (by simp only [onUndefined, hnone, Option.orElse_none])
  · have hmem (id : String) : id ∈ sortedIds (registry.idsWith ((m.ids.letters? ref.id).getD "")) ↔
        id ∈ registry.idsWith ((m.ids.letters? ref.id).getD "") := List.mem_mergeSort
    refine .inr ⟨c, ⟨(hmem c).mpr hc.mem, hc.near, fun c' hc' => hc.least c' ((hmem c').mp hc')⟩, ?_⟩
    simp only [onUndefined, hsome, Option.orElse_some]

/-- A search for the closest candidate finds the first at the least distance within the threshold, and
nothing only if none is within it. Diagnostics on undeclared properties, wrong words and undefined
references suggest nothing, what is declared for the mistake, or a nearest one of their options. -/
theorem suggestions_are_nearest :
    (∀ s, s ≠ "" → ∀ candidates,
      (∀ c, Text.closest? s candidates = some c ↔ Text.IsClosest s candidates c) ∧
      (Text.closest? s candidates = none ↔ ∀ c, .str c ∈ candidates →
        Text.matchThreshold s < Text.distance (Text.lower s) (Text.lower c))) ∧
    (∀ f hints document context d, Finding.diagnostic f hints document context = .ok d →
      f.keyword = "additionalProperties" →
        d.suggestion = none ∨
          (∃ h, hints.nestedHint? (FindingAdvice.undeclaredName f) = some h ∧
            d.suggestion = some h.hint) ∨
          d.SuggestsNearest (FindingAdvice.undeclaredName f)) ∧
    (∀ f hints document context d, Finding.diagnostic f hints document context = .ok d →
      f.keyword = "enum" →
        d.suggestion = none ∨
          (∃ mistake,
            (FindingAdvice.schemaMistake? f (FindingAdvice.valueText f) = .ok (some mistake) ∨
              hints.enumMistake? (FindingAdvice.valueText f) (d.validOptions.map .str)
                f.propertyName? = some mistake) ∧
            d.suggestion = some mistake) ∨
          d.SuggestsNearest (FindingAdvice.valueText f)) ∧
    ∀ m registry d, d.code = .undefinedReference →
      (ReferenceAdvice.advise m registry d).suggestion = d.suggestion ∨
        ∃ ref, ReferenceAdvice.reference? registry d = some ref ∧
          (ReferenceAdvice.advise m registry d).SuggestsNearest ref.id := by
  refine ⟨fun s hs candidates => ⟨Text.closest?_eq_some_iff hs candidates,
    Text.closest?_eq_none_iff hs candidates⟩, ?undeclared, ?wrong, ?undefined⟩
  case undeclared =>
    intro f hints document context d hd hkeyword
    rcases Finding.suggestion_diagnostic hd with hnone | ⟨context', a, ha, hsame⟩
    · exact .inl hnone
    · rw [FindingAdvice.ofKeyword, hkeyword] at ha
      rw [hsame, ← Except.ok.inj ha]
      exact FindingAdvice.suggestion_ofUndeclared hints f context'
  case wrong =>
    intro f hints document context d hd hkeyword
    rcases Finding.suggestion_diagnostic hd with hnone | ⟨context', a, ha, hsame⟩
    · exact .inl hnone
    · rw [FindingAdvice.ofKeyword, hkeyword] at ha
      rw [hsame]
      exact FindingAdvice.suggestion_ofEnum ha
  case undefined =>
    intro m registry d hcode
    cases m with
    | none => exact .inl rfl
    | some m =>
      rw [ReferenceAdvice.advise, hcode]
      cases href : ReferenceAdvice.reference? registry d with
      | none => exact .inl rfl
      | some ref =>
        exact (ReferenceAdvice.suggestion_onUndefined m registry ref d).imp_right
          fun h => ⟨ref, rfl, h⟩

/-- A mistyped name, an undeclared property, a wrong word, and a reference to an identifier that nothing
defines. -/
theorem suggestions_for_mistyped_names :
    Text.IsClosest "Actr" [5, "task", "actor", "acts"] "actor" ∧
    (∃ d, Finding.diagnostic
        { keyword := "additionalProperties", params := [("additionalProperty", "nme")] }
        {} none (some { validProperties := ["name"] }) = .ok d ∧ d.SuggestsNearest "nme") ∧
    (∃ d, Finding.diagnostic
        { keyword := "enum", params := [("allowedValues", .texts ["low", "high"])], data := "hgh" }
        {} none none = .ok d ∧ d.SuggestsNearest "hgh") ∧
    ∃ registry d ref, d.code = .undefinedReference ∧
      ReferenceAdvice.reference? registry d = some ref ∧
      (ReferenceAdvice.advise (some { ids := { kinds := [("AC", "actor")] } }) registry d).SuggestsNearest
        ref.id := by
  obtain ⟨hclosest, hundeclared, hwrong, hundefined⟩ := suggestions_are_nearest
  refine ⟨((hclosest "Actr" (by decide) _).1 "actor").mp (by decide +kernel), ?_, ?_, ?_⟩
  · refine ⟨_, rfl, ?_⟩
    rcases hundeclared
        { keyword := "additionalProperties", params := [("additionalProperty", "nme")] } {} none
        (some { validProperties := ["name"] }) _ rfl rfl with hnone | ⟨h, hnested, -⟩ | hnearest
    · exact absurd hnone (by decide +kernel)
    · cases hnested
    · exact hnearest
  · refine ⟨_, rfl, ?_⟩
    rcases hwrong
        { keyword := "enum", params := [("allowedValues", .texts ["low", "high"])], data := "hgh" }
        {} none none _ rfl rfl with hnone | ⟨mistake, hmistake | hmistake, -⟩ | hnearest
    · exact absurd hnone (by decide +kernel)
    · cases hmistake
    · cases hmistake
    · exact hnearest
  · refine ⟨{ defined := [⟨"AC00001", "AC", "actor", "a", "/actors/AC00001", none, none⟩]
              references := [⟨"AC00002", "a", "owner", "/owner", none, none⟩] },
      { code := .undefinedReference, message := "", path := "/owner", filepath := "a" },
      ⟨"AC00002", "a", "owner", "/owner", none, none⟩, rfl, rfl, ?_⟩
    rcases hundefined (some { ids := { kinds := [("AC", "actor")] } })
        { defined := [⟨"AC00001", "AC", "actor", "a", "/actors/AC00001", none, none⟩]
          references := [⟨"AC00002", "a", "owner", "/owner", none, none⟩] }
        { code := .undefinedReference, message := "", path := "/owner", filepath := "a" } rfl
      with hsame | ⟨ref, href, hnearest⟩
    · exact absurd hsame (by decide +kernel)
    · cases href
      exact hnearest

end BusinessModel
