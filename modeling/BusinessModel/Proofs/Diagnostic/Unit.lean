import BusinessModel.Proofs.Diagnostic.Explanation
import BusinessModel.Proofs.Diagnostic.PatternAdvice
import BusinessModel.Proofs.Schema.Bundled.Recognition

/-!
Numbers without their unit: what is suggested for a text that is no duration, and whether the suggestion
is one. The advice takes digits of any script for a number, and a line feed behind it, and puts the first
unit behind the text as it stands; durations have ASCII digits and nothing between these and the unit.
-/

namespace BusinessModel

open Pattern IdScheme

/-! ### Numbers and durations -/

/-- Characters are a number: digits, and perhaps a point and more digits. -/
inductive IsNumeral (digit : Char → Bool) : List Char → Prop where
  | whole {ds} : ds ≠ [] → ds.all digit = true → IsNumeral digit ds
  | point {ds es} : ds ≠ [] → ds.all digit = true → es ≠ [] → es.all digit = true →
      IsNumeral digit (ds ++ '.' :: es)

section Numeral

variable {digit digit' : Char → Bool} {cs : List Char}

theorem IsNumeral.mem (h : IsNumeral digit cs) {c : Char} (hc : c ∈ cs) : digit c = true ∨ c = '.' := by
  cases h with
  | whole _ hds => exact .inl (List.all_eq_true.mp hds c hc)
  | point _ hds _ hes =>
    rcases List.mem_append.mp hc with hc | hc
    · exact .inl (List.all_eq_true.mp hds c hc)
    · rcases List.mem_cons.mp hc with rfl | hc
      · exact .inr rfl
      · exact .inl (List.all_eq_true.mp hes c hc)

theorem IsNumeral.imp (h : IsNumeral digit cs) (himp : ∀ c ∈ cs, digit c = true → digit' c = true) :
    IsNumeral digit' cs := by
  cases h with
  | whole hne hds =>
    exact .whole hne (List.all_eq_true.mpr fun c hc => himp c hc (List.all_eq_true.mp hds c hc))
  | point hne hds hne' hes =>
    refine .point hne (List.all_eq_true.mpr fun c hc => ?_) hne' (List.all_eq_true.mpr fun c hc => ?_)
    · exact himp c (List.mem_append_left _ hc) (List.all_eq_true.mp hds c hc)
    · exact himp c (List.mem_append_right _ (List.mem_cons_of_mem _ hc)) (List.all_eq_true.mp hes c hc)

end Numeral

/-- The test on a character of an ASCII digit, as a set writes it. -/
def digitSet : CharTest := .either .nothing (.between '0' '9')

theorem accepts_digitSet : digitSet.accepts = Char.isDigit := by
  funext c
  simp [digitSet, CharTest.accepts, Char.isDigit, Char.le_def]

/-- The units of durations. -/
def durationUnits : List String := ["min", "h", "d", "wk", "mo"]

/-- What the pattern of durations is read as. -/
def durationPattern : Pattern :=
  .seq (.anchor .textStart) (.seq (.repeated .greedy 1 none (.char digitSet))
    (.seq (.repeated .greedy 0 (some 1) (.group 1 (.seq (.char (.exactly '.'))
      (.repeated .greedy 1 none (.char digitSet)))))
      (.seq (.group 2 (oneSpelled durationUnits)) (.anchor .textEnd))))

/-- The text of the pattern of durations. -/
def durationText : String := "^[0-9]+(\\.[0-9]+)?(min|h|d|wk|mo)$"

theorem parse?_durationText : Pattern.parse? durationText = some durationPattern := by
  have h : (Pattern.parse? durationText == some durationPattern) = true := by decide +kernel
  exact beq_iff_eq.mp h

/-- Characters are a unit, with a line feed or nothing behind it. -/
def IsUnitEnd (cs : List Char) : Prop :=
  ∃ unit ∈ durationUnits, cs = unit.toList ∨ cs = unit.toList ++ ['\n']

section Run

variable {before rest : List Char} {groups : List (Nat × List Char)}

theorem run_units_iff :
    ((Pattern.seq (.group 2 (oneSpelled durationUnits)) (.anchor .textEnd)).run ⟨before, rest, groups⟩
      some).isSome ↔ IsUnitEnd rest := by
  refine (run_oneSpelled (by decide)).trans (exists_congr fun unit => and_congr_right fun _ => ?_)
  constructor
  · rintro ⟨more, rfl, hmore⟩
    have hend : more = [] ∨ more = ['\n'] := by simpa using hmore
    rcases hend with rfl | rfl
    · exact .inl (List.append_nil _)
    · exact .inr rfl
  · rintro (rfl | rfl)
    · exact ⟨[], (List.append_nil _).symm, rfl⟩
    · exact ⟨['\n'], rfl, rfl⟩

/-- A point and decimals behind it, or nothing, and then what the rest asks for. -/
theorem run_decimals_iff {q : Pattern} {p : List Char → Prop}
    (hq : ∀ before rest groups, (q.run ⟨before, rest, groups⟩ some).isSome ↔ p rest) :
    ((Pattern.seq (.repeated .greedy 0 (some 1) (.group 1 (.seq (.char (.exactly '.'))
      (.repeated .greedy 1 none (.char digitSet))))) q).run ⟨before, rest, groups⟩ some).isSome ↔
      (∃ ds more, rest = '.' :: (ds ++ more) ∧ ds ≠ [] ∧ ds.all Char.isDigit = true ∧ p more) ∨ p rest := by
  rw [run_seq, run_optional_iff, hq]
  refine or_congr_left ?_
  rw [run_group, run_seq, run_char_iff]
  simp only [run_many_iff, ManyNext, accepts_digitSet]
  constructor
  · rintro ⟨c, _, rfl, hc, ds, more, rfl, hlength, hds, hmore⟩
    rw [CharTest.accepts_exactly, beq_iff_eq] at hc
    refine ⟨ds, more, by rw [hc], List.length_pos_iff.mp hlength, hds, ?_⟩
    split at hmore
    · cases hmore
    · exact (hq _ _ _).mp hmore
  · rintro ⟨ds, more, rfl, hne, hds, hmore⟩
    refine ⟨'.', ds ++ more, rfl, rfl, ds, more, rfl, List.length_pos_iff.mpr hne, hds, ?_⟩
    rw [if_neg]
    · exact (hq _ _ _).mpr hmore
    · simp only [List.length_cons, List.length_append, beq_iff_eq]
      omega

end Run

/-- A text is a duration: a number with a unit behind it, and a line feed or nothing behind these. -/
def IsDuration (text : String) : Prop :=
  ∃ cs back, text.toList = cs ++ back ∧ IsNumeral Char.isDigit cs ∧ IsUnitEnd back

theorem search_durationPattern_iff {text : String} :
    durationPattern.search text = true ↔ IsDuration text := by
  rw [durationPattern, search_textStart, matchesStart, run_seq, run_many_iff, ManyNext, accepts_digitSet]
  simp only [run_decimals_iff fun _ _ _ => run_units_iff]
  constructor
  · rintro ⟨ds, rest, htext, hlength, hds, ⟨es, back, rfl, hne, hes, hback⟩ | hback⟩
    · exact ⟨ds ++ '.' :: es, back, by simp [htext],
        .point (List.length_pos_iff.mp hlength) hds hne hes, hback⟩
    · exact ⟨ds, rest, htext, .whole (List.length_pos_iff.mp hlength) hds, hback⟩
  · rintro ⟨cs, back, htext, hcs, hback⟩
    cases hcs with
    | whole hne hds => exact ⟨cs, back, htext, List.length_pos_iff.mpr hne, hds, .inr hback⟩
    | @point ds es hne hds hne' hes =>
      exact ⟨ds, '.' :: (es ++ back), by simp [htext], List.length_pos_iff.mpr hne, hds,
        .inl ⟨es, back, rfl, hne', hes, hback⟩⟩

namespace PatternAdvice

/-- A text is taken for a number if it is one, in the digits of any script, with a line feed or nothing
behind it. -/
theorem isNumber_iff {text : String} : isNumber text = true ↔
    ∃ cs back, text.toList = cs ++ back ∧ IsNumeral Text.isDecimal cs ∧ isEnd back = true := by
  constructor
  · intro h
    obtain ⟨rest, hrest⟩ := List.takeWhile_prefix (l := text.toList) Text.isDecimal
    have hwhole : (text.toList.takeWhile Text.isDecimal).all Text.isDecimal = true :=
      List.all_takeWhile
    simp only [isNumber, drop_length_of_append hrest, Bool.and_eq_true, Bool.not_eq_true'] at h
    generalize text.toList.takeWhile Text.isDecimal = whole at h hwhole hrest
    obtain ⟨hsome, hend⟩ := h
    have hne : whole ≠ [] := by
      rintro rfl
      cases hsome
    split at hend
    · next more =>
      obtain ⟨back, hback⟩ := List.takeWhile_prefix (l := more) Text.isDecimal
      split at hend
      · cases hend
      · next hdecimals =>
        rw [drop_length_of_append hback] at hend
        refine ⟨whole ++ '.' :: more.takeWhile Text.isDecimal, back, ?_,
          .point hne hwhole ?_ List.all_takeWhile, hend⟩
        · simp [hback, hrest]
        · simpa using hdecimals
    · exact ⟨whole, rest, hrest.symm, .whole hne hwhole, hend⟩
  · rintro ⟨cs, back, htext, hcs, hback⟩
    have hstop : back.head?.all (fun c => !Text.isDecimal c) = true := head?_lineEnd (isEnd_iff.mp hback)
    cases hcs with
    | whole hne hds =>
      obtain ⟨htaken, -⟩ := takeWhile_append_of_all hds hstop
      simp only [isNumber, htext, htaken, List.drop_left]
      rcases isEnd_iff.mp hback with rfl | rfl
      · simp [hne, hback]
      · simp [hne, hback]
    | @point ds es hne hds hne' hes =>
      have htaken : (ds ++ '.' :: (es ++ back)).takeWhile Text.isDecimal = ds :=
        (takeWhile_append_of_all hds rfl).1
      obtain ⟨hdecimals, -⟩ := takeWhile_append_of_all hes hstop
      rw [List.append_assoc, List.cons_append] at htext
      simp only [isNumber, htext, htaken, List.drop_left, hdecimals]
      simp [hne, hne', hback]

theorem firstUnit?_durationText : firstUnit? durationText = some "min" := by
  decide +kernel

theorem idPattern?_durationText : idPattern? durationText = none := by
  decide +kernel

/-- What is suggested for a text with the pattern of durations. -/
theorem suggestion?_durationText (value : String) : suggestion? value durationText =
    .ok (if isNumber value then some ("Missing unit: try \"" ++ (value ++ "min") ++ "\"")
      else surroundingSpace? value) := by
  rw [suggestion?, missingUnit?, firstUnit?_durationText, Option.bind_some, idDigits?, wrongLetters?,
    idPattern?_durationText]
  by_cases hnumber : isNumber value = true
  · rw [if_pos hnumber, if_pos hnumber, ← String.append_assoc]
    rfl
  · rw [if_neg hnumber, if_neg hnumber]
    rfl

/-- What the first unit stands behind is a number of its own. -/
theorem eq_of_append_unit {front cs back : List Char} (hback : IsUnitEnd back)
    (h : front ++ "min".toList = cs ++ back) : front = cs := by
  obtain ⟨unit, hunit, hback⟩ := hback
  have hlast := congrArg List.getLast? h
  simp only [durationUnits, List.mem_cons, List.not_mem_nil, or_false] at hunit
  rcases hunit with rfl | rfl | rfl | rfl | rfl
  · rcases hback with rfl | rfl
    · exact List.append_cancel_right h
    · simp at hlast
  all_goals rcases hback with rfl | rfl
  all_goals simp at hlast

/-- A number with the unit behind it is a duration if it has ASCII digits only and no line feed. -/
theorem isDuration_unit_iff {value : String} (hnumber : isNumber value = true) :
    IsDuration (value ++ "min") ↔ ∀ c ∈ value.toList, c.isDigit = true ∨ c = '.' := by
  rw [IsDuration, String.toList_append]
  constructor
  · rintro ⟨cs, back, htext, hcs, hback⟩ c hc
    rw [eq_of_append_unit hback htext] at hc
    exact hcs.mem hc
  · intro hplain
    obtain ⟨cs, back, htext, hcs, hback⟩ := isNumber_iff.mp hnumber
    rw [htext] at hplain ⊢
    have hnone : back = [] := by
      refine (isEnd_iff.mp hback).resolve_right fun hfeed => ?_
      have hc := hplain '\n' (List.mem_append_right _ (by rw [hfeed]; exact List.mem_cons_self))
      revert hc
      decide
    rw [hnone, List.append_nil]
    refine ⟨cs, _, rfl, hcs.imp fun c hc hdecimal => ?_, "min", List.mem_cons_self, .inl rfl⟩
    refine (hplain c (List.mem_append_left _ hc)).resolve_right ?_
    rintro rfl
    revert hdecimal
    decide

/-- What a text that is taken for a number is written with. -/
theorem mem_of_isNumber {value : String} (hnumber : isNumber value = true) :
    ∀ c ∈ value.toList, Text.isDecimal c = true ∨ c = '.' ∨ c = '\n' := by
  obtain ⟨cs, back, htext, hcs, hback⟩ := isNumber_iff.mp hnumber
  intro c hc
  rw [htext] at hc
  rcases List.mem_append.mp hc with hc | hc
  · exact (hcs.mem hc).imp_right .inl
  · rcases isEnd_iff.mp hback with rfl | rfl
    · cases hc
    · exact .inr (.inr (List.mem_singleton.mp hc))

/-- A number is no duration: units are written with letters. -/
theorem not_isDuration_of_isNumber {value : String} (hnumber : isNumber value = true) :
    ¬ IsDuration value := by
  rintro ⟨cs, back, htext, -, unit, hunit, hback⟩
  have hletters : durationUnits.all (fun unit =>
      unit.toList.any fun c => !Text.isDecimal c && c != '.' && c != '\n') = true := by
    decide
  obtain ⟨c, hc, hletter⟩ := List.any_eq_true.mp (List.all_eq_true.mp hletters unit hunit)
  have hnone : ¬ (Text.isDecimal c = true ∨ c = '.' ∨ c = '\n') := by
    simpa [and_assoc] using hletter
  refine hnone (mem_of_isNumber hnumber c ?_)
  rw [htext]
  rcases hback with rfl | rfl
  · exact List.mem_append_right _ hc
  · exact List.mem_append_right _ (List.mem_append_left _ hc)

end PatternAdvice

/-! ### Findings on durations -/

section Finding

open FindingAdvice PatternAdvice

variable {f : Finding} {hints : Schema.Hints} {context : Option AdviceContext} {a : Advice}
  {pattern value : String}

/-- The suggestion on a text that does not match a pattern is made from the two alone. -/
theorem Finding.suggestion_of_pattern (hkeyword : f.keyword = "pattern")
    (hpattern : f.param? "pattern" = some (.str pattern)) (hdata : f.data = .str value)
    (hadvice : f.advice hints context = .ok a) :
    a.suggestion = none ∨ suggestion? value pattern = .ok a.suggestion := by
  rw [advice_eq] at hadvice
  obtain ⟨c, -, hadvice⟩ := bind_eq_ok_iff.mp hadvice
  split at hadvice
  · next a' hmade =>
    cases hadvice
    have hofPattern : ofPattern hints f c = .ok a := by
      rw [← hmade, ofKeyword, hkeyword]
      rfl
    obtain ⟨hint, -, hofPattern⟩ := bind_eq_ok_iff.mp hofPattern
    obtain ⟨suggestion, hsuggestion, hofPattern⟩ := bind_eq_ok_iff.mp hofPattern
    cases hofPattern
    right
    rw [hpattern, valueText, hdata] at hsuggestion
    exact hsuggestion
  · cases hadvice
    exact .inl rfl
  · cases hadvice

/-- What is suggested begins with no other words than those for a missing unit or for blanks around the
text. -/
theorem PatternAdvice.missing_unit_eq {w : String}
    (h : suggestion? value durationText = .ok (some ("Missing unit: try \"" ++ w ++ "\""))) :
    isNumber value = true ∧ w = value ++ "min" := by
  rw [suggestion?_durationText, Except.ok.injEq] at h
  split at h
  · next hnumber =>
    rw [Option.some.injEq] at h
    refine ⟨hnumber, String.toList_injective ?_⟩
    have hchars := congrArg String.toList h
    simp only [String.toList_append] at hchars ⊢
    exact (List.append_cancel_left (List.append_cancel_right hchars)).symm
  · rw [surroundingSpace?] at h
    split at h
    · cases h
    · rw [Option.some.injEq] at h
      have hfirst := congrArg (fun s => s.toList.head?) h
      simp [String.toList_append] at hfirst

end Finding

/-- The bundled definition of durations, and what it recognises. -/
theorem exists_duration : ∃ definition,
    Value.lookup "Duration" (Schema.sharedDefinitions SchemaSet.bundled.definitions) = some definition ∧
    definition.get? "pattern" = some (.str durationText) ∧
    Schema.Bundled.Recognises definition IsDuration := by
  refine ⟨Schema.Bundled.durationDefinition.value, ?_, rfl, ?_⟩
  · rw [Schema.Bundled.definitions_bundled]
    rfl
  · exact (Schema.Bundled.recognises_of_parse _ _ parse?_durationText).congr
      fun _ => search_durationPattern_iff

/-- Where the unit is missing behind a text, the text with the first unit behind it is suggested. That is
a duration exactly if the text has only ASCII digits and points. -/
theorem missing_unit_suggests_duration_iff {definition : Value} {pattern value w : String} {f : Finding}
    {hints : Schema.Hints} {context : Option AdviceContext} {a : Advice}
    (hdefinition : Value.lookup "Duration" (Schema.sharedDefinitions SchemaSet.bundled.definitions) =
      some definition)
    (hpattern : definition.get? "pattern" = some (.str pattern)) (hkeyword : f.keyword = "pattern")
    (hparam : f.param? "pattern" = some (.str pattern)) (hdata : f.data = .str value)
    (hadvice : f.advice hints context = .ok a)
    (hsuggestion : a.suggestion = some ("Missing unit: try \"" ++ w ++ "\"")) :
    Schema.Bundled.Recognises definition IsDuration ∧ ¬ IsDuration value ∧ w = value ++ "min" ∧
      (IsDuration w ↔ ∀ c ∈ value.toList, c.isDigit = true ∨ c = '.') := by
  obtain ⟨own, hown, htext, hrecognises⟩ := exists_duration
  cases hown.symm.trans hdefinition
  cases htext.symm.trans hpattern
  have hmade : PatternAdvice.suggestion? value durationText = .ok a.suggestion :=
    (f.suggestion_of_pattern hkeyword hparam hdata hadvice).resolve_left
      fun hnone => by rw [hsuggestion] at hnone; cases hnone
  rw [hsuggestion] at hmade
  obtain ⟨hnumber, rfl⟩ := PatternAdvice.missing_unit_eq hmade
  exact ⟨hrecognises, PatternAdvice.not_isDuration_of_isNumber hnumber, rfl,
    PatternAdvice.isDuration_unit_iff hnumber⟩

/-- A number without its unit gets it. -/
theorem missing_unit_suggests_duration_for_five : ∃ definition a,
    Value.lookup "Duration" (Schema.sharedDefinitions SchemaSet.bundled.definitions) = some definition ∧
    definition.get? "pattern" = some (.str durationText) ∧
    Schema.Bundled.Recognises definition IsDuration ∧
    Finding.advice { keyword := "pattern", params := [("pattern", durationText)], data := "5" }
      {} none = .ok a ∧
    a.suggestion = some ("Missing unit: try \"" ++ "5min" ++ "\"") ∧ IsDuration "5min" := by
  obtain ⟨definition, hdefinition, hpattern, hrecognises⟩ := exists_duration
  refine ⟨definition, _, hdefinition, hpattern, hrecognises, rfl, by decide +kernel, ?_⟩
  obtain ⟨-, -, -, hiff⟩ := missing_unit_suggests_duration_iff (w := "5min")
    (f := { keyword := "pattern", params := [("pattern", durationText)], data := "5" })
    hdefinition hpattern rfl rfl rfl (rfl : Finding.advice _ {} none = .ok _) (by decide +kernel)
  refine hiff.mpr fun c hc => ?_
  have hfive : c ∈ ['5'] := hc
  exact .inl (by rw [List.mem_singleton.mp hfive]; rfl)

/-- A line feed behind a number, and digits of another script, stay in the text that is suggested for
it, and that is no duration. -/
theorem missing_unit_suggests_other_text : ∃ definition,
    Value.lookup "Duration" (Schema.sharedDefinitions SchemaSet.bundled.definitions) = some definition ∧
    definition.get? "pattern" = some (.str durationText) ∧
    Schema.Bundled.Recognises definition IsDuration ∧
    ∀ e ∈ [("5\n", "5\nmin"), ("٥", "٥min")], ¬ IsDuration e.1 ∧ ∃ a : Advice,
      Finding.advice { keyword := "pattern", params := [("pattern", durationText)], data := .str e.1 }
        {} none = .ok a ∧
      a.suggestion = some ("Missing unit: try \"" ++ e.2 ++ "\"") ∧ ¬ IsDuration e.2 := by
  obtain ⟨definition, hlookup, hpattern, hrecognises⟩ := exists_duration
  refine ⟨definition, hlookup, hpattern, hrecognises, ?_⟩
  simp only [← search_durationPattern_iff]
  intro e he
  rcases List.mem_cons.mp he with rfl | he
  · exact ⟨by decide +kernel, _, rfl, by decide +kernel, by decide +kernel⟩
  · cases List.mem_singleton.mp he
    exact ⟨by decide +kernel, _, rfl, by decide +kernel, by decide +kernel⟩

end BusinessModel
