import BusinessModel.Proofs.Diagnostic.PatternAdvice
import BusinessModel.Proofs.Outcome

/-!
Repaired identifiers: what is proposed for a text that does not match a pattern of identifiers. The
proposal has the letters of the text as capitals and its digits with zeros in front, so it matches the
pattern and denotes the same number.
-/

namespace BusinessModel.PatternAdvice

open Pattern IdScheme

variable {words : List String} {n : Nat} {pattern value : String}

/-- A message proposes a text in place of one with small letters or too few digits. -/
def Proposes (n : Nat) (message proposal : String) : Prop :=
  message = "ID prefixes are uppercase: use \"" ++ proposal ++ "\"" ∨
    message = "ID needs at least " ++ Text.natText n ++ " digits: use \"" ++ proposal ++ "\""

/-- The letters as capitals, and the digits with zeros in front. -/
def repaired (n : Nat) (letters digits : String) : String :=
  Text.upper letters ++ Text.zeroFill n digits

theorem length_toDigits_le (hn : n ≤ maxWidth) : (Nat.toDigits 10 n).length ≤ maxIntDigits := by
  have hlength : (Nat.toDigits 10 n).length ≤ 19 := by
    refine (Nat.length_toDigits_le_iff (by decide) (by decide)).mpr (Nat.lt_of_le_of_lt hn ?_)
    decide
  exact Nat.le_trans hlength (by decide)

/-- What is said of a text that looks like an identifier with letters of the pattern. -/
theorem idDigits?_eq (h : IsIdText words n pattern) (hn : n ≤ maxWidth) {letters digits : String}
    (hlike : LooksLikeId value letters digits) (hword : Text.upper letters ∈ words) :
    idDigits? value pattern = .ok (
      if letters ≠ Text.upper letters then
        some ("ID prefixes are uppercase: use \"" ++ repaired n letters digits ++ "\"")
      else if digits.length < n then
        some ("ID needs at least " ++ Text.natText n ++ " digits: use \"" ++
          repaired n letters digits ++ "\"")
      else none) := by
  have hwidth : IdPattern.width ⟨words, Nat.toDigits 10 n⟩ = .ok n :=
    width_eq_ok_iff.mpr ⟨length_toDigits_le hn, rfl⟩
  have hfilled : filled n digits = .ok (Text.zeroFill n digits) := if_neg (Nat.not_lt.mpr hn)
  have hin : words.contains (Text.upper letters) = true := List.contains_iff_mem.mpr hword
  rw [idDigits?, idPattern?_of_isIdText h, idLike?_of_looksLikeId hlike]
  simp only [hwidth, hfilled, hin, bind, Except.bind]
  by_cases hcase : letters = Text.upper letters
  · by_cases hfew : digits.length < n
    · simp [← hcase, hfew, repaired, pure, Except.pure]
    · simp [← hcase, hfew, pure, Except.pure]
  · simp [hcase, repaired, pure, Except.pure]

/-- Something is said only of a text that looks like an identifier with letters of the pattern. -/
theorem looksLikeId_of_idDigits? (h : IsIdText words n pattern) {message : String}
    (hmessage : idDigits? value pattern = .ok (some message)) :
    n ≤ maxWidth ∧ ∃ letters digits, LooksLikeId value letters digits ∧ Text.upper letters ∈ words := by
  rw [idDigits?, idPattern?_of_isIdText h] at hmessage
  cases hlike : idLike? value with
  | none =>
    rw [hlike] at hmessage
    cases hmessage
  | some parts =>
    obtain ⟨letters, digits⟩ := parts
    rw [hlike] at hmessage
    obtain ⟨width, hwidth, hmessage⟩ := bind_eq_ok_iff.mp hmessage
    obtain ⟨-, rfl⟩ := width_eq_ok_iff.mp hwidth
    dsimp only at hmessage
    split at hmessage
    · cases hmessage
    · next hin =>
      obtain ⟨fixed, hfixed, -⟩ := bind_eq_ok_iff.mp hmessage
      refine ⟨?_, letters, digits, idLike?_eq_some_iff.mp hlike, by simpa using hin⟩
      by_contra hlong
      rw [filled, if_pos (Nat.not_le.mp hlong)] at hfixed
      cases hfixed

section Repaired

variable {letters digits : String} (hlike : LooksLikeId value letters digits) (n : Nat)

include hlike

theorem LooksLikeId.toList_zeroFill :
    (Text.zeroFill n digits).toList = List.replicate (n - digits.length) '0' ++ digits.toList := by
  have hfilled := Text.zeroFill_ofList hlike.decimal n
  rw [String.ofList_toList] at hfilled
  rw [hfilled, String.toList_ofList, String.length_toList]

theorem LooksLikeId.digitsValue_zeroFill :
    Text.digitsValue (Text.zeroFill n digits).toList = Text.digitsValue digits.toList := by
  rw [hlike.toList_zeroFill, Text.digitsValue_zeros]

theorem LooksLikeId.decimal_zeroFill : (Text.zeroFill n digits).toList.all Text.isDecimal = true := by
  rw [hlike.toList_zeroFill, List.all_append, hlike.decimal, Bool.and_true, List.all_eq_true]
  intro c hc
  rw [List.eq_of_mem_replicate hc]
  rfl

theorem LooksLikeId.isNumbered_repaired : IsNumbered (Text.upper letters) n (repaired n letters digits) := by
  refine ⟨(Text.zeroFill n digits).toList, ?_, hlike.decimal_zeroFill n, .inl String.toList_append⟩
  rw [hlike.toList_zeroFill, List.length_append, List.length_replicate, String.length_toList]
  omega

/-- A repaired identifier is told apart into the capitals and the filled digits. -/
theorem LooksLikeId.split?_repaired :
    split? (repaired n letters digits) = some (Text.upper letters, Text.zeroFill n digits) := by
  refine split?_eq_some_iff.mpr ⟨?_, (toList_upper hlike.alphabetic).2, ?_, hlike.decimal_zeroFill n, .inl rfl⟩
  · intro hempty
    have hlength := congrArg List.length (toList_upper hlike.alphabetic).1
    rw [hempty, List.length_map, String.length_toList] at hlength
    have hnone : letters.length = 0 := hlength.symm
    have hletters := hlike.length
    omega
  · intro hempty
    have hfilled := hlike.toList_zeroFill n
    rw [hempty] at hfilled
    exact hlike.nonempty (String.toList_eq_nil_iff.mp (List.append_eq_nil_iff.mp hfilled.symm).2)

end Repaired

/-- A text with capitals of the pattern and enough digits matches it. -/
theorem LooksLikeId.isNumbered {letters digits : String} (hlike : LooksLikeId value letters digits)
    (hn : n ≤ digits.length) : IsNumbered letters n value := by
  refine ⟨digits.toList, by rwa [String.length_toList], hlike.decimal, ?_⟩
  rcases hlike.spelled with rfl | rfl
  · exact .inl String.toList_append
  · exact .inr (by simp)

theorem suggestion?_of_idDigits? (h : IsIdText words n pattern) {message : String}
    (hmessage : idDigits? value pattern = .ok (some message)) :
    suggestion? value pattern = .ok (some message) := by
  rw [suggestion?, missingUnit?, firstUnit?_of_isIdText h, hmessage]
  rfl

theorem le_length_of_isNumbered {word text : String} (h : IsNumbered word n text) : n ≤ text.length := by
  obtain ⟨digits, hdigits, -, htext⟩ := h
  rw [← String.length_toList]
  rcases htext with htext | htext
  · rw [htext, List.length_append]
    omega
  · rw [htext, List.length_append, List.length_append]
    omega

/-- For a text that does not match a pattern of identifiers, whatever is proposed matches it, has the
letters of the text as capitals, and denotes the same number. Something is proposed, and suggested,
whenever the text looks like an identifier with letters of the pattern, unless the pattern asks for more
digits than a text can have, so that nothing could be proposed. -/
theorem idDigits_proposes_matching (h : IsIdText words n pattern) :
    ∃ p, Pattern.parse? pattern = some p ∧ ∀ value, p.search value = false →
      (∀ message, idDigits? value pattern = .ok (some message) →
        ∃ letters digits filled, LooksLikeId value letters digits ∧
          Proposes n message (Text.upper letters ++ filled) ∧
          p.search (Text.upper letters ++ filled) = true ∧
          split? (Text.upper letters ++ filled) = some (Text.upper letters, filled) ∧
          Text.digitsValue filled.toList = Text.digitsValue digits.toList) ∧
      ((∃ text, text.length ≤ maxWidth ∧ p.search text = true) →
        ∀ letters digits, LooksLikeId value letters digits → Text.upper letters ∈ words →
          ∃ message, idDigits? value pattern = .ok (some message) ∧
            suggestion? value pattern = .ok (some message)) := by
  obtain ⟨p, hparse, hsearch⟩ := h.exists_parse
  refine ⟨p, hparse, fun value hnone => ⟨fun message hmessage => ?_, ?_⟩⟩
  · obtain ⟨hn, letters, digits, hlike, hword⟩ := looksLikeId_of_idDigits? h hmessage
    refine ⟨letters, digits, Text.zeroFill n digits, hlike, ?_,
      (hsearch _).mpr ⟨_, hword, hlike.isNumbered_repaired n⟩, hlike.split?_repaired n,
      hlike.digitsValue_zeroFill n⟩
    rw [idDigits?_eq h hn hlike hword] at hmessage
    have hmessage := Except.ok.inj hmessage
    split at hmessage
    · exact .inl (Option.some.inj hmessage).symm
    · split at hmessage
      · exact .inr (Option.some.inj hmessage).symm
      · cases hmessage
  · rintro ⟨text, hlength, htext⟩ letters digits hlike hword
    have hn : n ≤ maxWidth := by
      obtain ⟨w, -, hnumbered⟩ := (hsearch text).mp htext
      exact (le_length_of_isNumbered hnumbered).trans hlength
    have hfew : letters = Text.upper letters → digits.length < n := by
      intro hcapital
      by_contra henough
      have hmatch := (hsearch value).mpr ⟨letters, hcapital ▸ hword,
        hlike.isNumbered (Nat.not_lt.mp henough)⟩
      rw [hnone] at hmatch
      cases hmatch
    have hmessage : ∃ message, idDigits? value pattern = .ok (some message) := by
      rw [idDigits?_eq h hn hlike hword]
      split
      · exact ⟨_, rfl⟩
      · next hcapital =>
        rw [if_pos (hfew (not_not.mp hcapital))]
        exact ⟨_, rfl⟩
    obtain ⟨message, hmessage⟩ := hmessage
    exact ⟨message, hmessage, suggestion?_of_idDigits? h hmessage⟩

/-- A small letter, an Arabic digit and a line feed behind them are repaired together. -/
theorem idDigits_proposes_matching_mixed_case : ∃ p,
    Pattern.parse? "^(AC|PR)\\d\x7b5,\x7d$" = some p ∧ p.search "Pr1\u0662\n" = false ∧
      p.search "AC00001" = true ∧ LooksLikeId "Pr1\u0662\n" "Pr" "1\u0662" ∧
      ∃ message, idDigits? "Pr1\u0662\n" "^(AC|PR)\\d\x7b5,\x7d$" = .ok (some message) ∧
        ∃ proposal, Proposes 5 message proposal ∧ p.search proposal = true := by
  have htext : IsIdText ["AC", "PR"] 5 "^(AC|PR)\\d\x7b5,\x7d$" :=
    ⟨by decide, by decide, by decide, by decide, .inr (by decide)⟩
  have hlike : LooksLikeId "Pr1\u0662\n" "Pr" "1\u0662" :=
    ⟨by decide, by decide, by decide, by decide, .inr (by decide)⟩
  have hsearches : (Pattern.parse? "^(AC|PR)\\d\x7b5,\x7d$").any (fun p =>
      !p.search "Pr1\u0662\n" && p.search "AC00001") = true := by
    decide +kernel
  obtain ⟨p, hparse, hrepair⟩ := idDigits_proposes_matching htext
  rw [hparse, Option.any_some, Bool.and_eq_true, Bool.not_eq_true'] at hsearches
  obtain ⟨hnone, hsome⟩ := hsearches
  obtain ⟨message, hmessage, -⟩ := (hrepair _ hnone).2 ⟨"AC00001", by decide, hsome⟩ _ _ hlike (by decide)
  obtain ⟨letters, digits, filled, -, hproposes, hmatches, -⟩ := (hrepair _ hnone).1 message hmessage
  exact ⟨p, hparse, hnone, hsome, hlike, message, hmessage, _, hproposes, hmatches⟩

end BusinessModel.PatternAdvice
