import BusinessModel.Proofs.Identifier.Letters

/-!
The two ways to recognise an identifier agree: the pattern of valid identifiers, which tries the
letters in use one after the other, and the split into capital letters and digits, which knows no
scheme. No letters in use are misread, even if some are the beginning of others, since a digit must
follow them.
-/

namespace BusinessModel.IdScheme

variable {s : IdScheme} {text letters digits : String}

/-- How a text is read as an identifier: letters in use, enough decimal digits, and a line feed or
nothing behind them. -/
structure Reads (s : IdScheme) (text letters digits : String) : Prop where
  inUse : letters ∈ s.kinds.map (·.1)
  enough : s.digitLength ≤ digits.length
  decimal : digits.toList.all Text.isDecimal = true
  spelled : text = letters ++ digits ∨ text = letters ++ digits ++ "\n"

section Words

variable (hwords : s.HasWords)

include hwords

theorem HasWords.isValid_iff_reads : s.isValid text = true ↔ ∃ letters digits, s.Reads text letters digits := by
  rw [isValid_iff hwords]
  constructor
  · rintro ⟨p, hp, digits, hlength, hdecimal, htext⟩
    have hspelled (tail : List Char) : text.toList = p.1.toList ++ digits ++ tail →
        text = p.1 ++ String.ofList digits ++ String.ofList tail := fun h => by
      rw [← String.toList_inj]
      simpa using h
    refine ⟨p.1, String.ofList digits, List.mem_map_of_mem hp, ?_, by simpa using hdecimal, ?_⟩
    · simp only [String.length_ofList]
      omega
    · exact htext.imp (fun h => by simpa using hspelled [] (by simpa using h)) (hspelled ['\n'])
  · rintro ⟨letters, digits, hread⟩
    obtain ⟨p, hp, rfl⟩ := List.mem_map.mp hread.inUse
    have henough := hread.enough
    refine ⟨p, hp, digits.toList, ?_, hread.decimal, ?_⟩
    · rw [String.length_toList]
      omega
    · exact hread.spelled.imp (fun h => by simp [h]) (fun h => by simp [h])

/-- However a text is read, its split is the same. -/
theorem HasWords.split?_of_reads (h : s.Reads text letters digits) :
    split? text = some (letters, digits) := by
  obtain ⟨p, hp, rfl⟩ := List.mem_map.mp h.inUse
  have hdigits : digits ≠ "" := by
    rintro rfl
    have henough := h.enough
    have hleast := hwords.digits
    simp only [String.length_empty] at henough
    omega
  exact split?_eq_some_iff.mpr
    ⟨hwords.nonempty p hp, hwords.capital p hp, hdigits, h.decimal, h.spelled⟩

/-- A text is a valid identifier if and only if it can be read as one. Then it can be read in one way
only, and its letters, its element type and its split are those of that way. A text with letters in use
and enough digits in its split is valid. -/
theorem isValid_recognised (text : String) :
    (s.isValid text = true ↔ ∃ letters digits, s.Reads text letters digits) ∧
    (∀ letters digits, s.Reads text letters digits →
      s.letters? text = some letters ∧
      (∃ type, s.kinds.lookup letters = some type ∧ s.elementType? text = some type) ∧
      split? text = some (letters, digits) ∧
      ∀ letters' digits', s.Reads text letters' digits' → letters' = letters ∧ digits' = digits) ∧
    ∀ letters parts, s.letters? text = some letters → split? text = some parts →
      s.digitLength ≤ parts.2.length → s.isValid text = true := by
  refine ⟨hwords.isValid_iff_reads, fun letters digits h => ?_, fun letters parts hletters hsplit henough => ?_⟩
  · have hsplit := hwords.split?_of_reads h
    have hletters : s.letters? text = some letters := letters?_eq_some_iff.mpr ⟨h.inUse, digits, hsplit⟩
    obtain ⟨type, htype⟩ := Option.isSome_iff_exists.mp (lookup_isSome_iff.mpr h.inUse)
    refine ⟨hletters, ⟨type, htype, ?_⟩, hsplit, fun letters' digits' h' => ?_⟩
    · rw [elementType?, hletters, Option.bind_some, htype]
    · have hsame := hwords.split?_of_reads h'
      rw [hsplit] at hsame
      cases hsame
      exact ⟨rfl, rfl⟩
  · obtain ⟨hmem, digits, hsplit'⟩ := letters?_eq_some_iff.mp hletters
    rw [hsplit] at hsplit'
    cases hsplit'
    obtain ⟨-, -, -, hdecimal, hspelled⟩ := split?_eq_some_iff.mp hsplit
    exact hwords.isValid_iff_reads.mpr ⟨letters, digits, hmem, henough, hdecimal, hspelled⟩

end Words

/-- Of letters that are the beginning of others, those are read that a digit follows. -/
theorem isValid_recognised_overlapping :
    ∃ s : IdScheme, s.HasWords ∧ s.isValid "ROI00001\n" = true ∧ s.letters? "ROI00001\n" = some "ROI" ∧
      s.isValid "RO00001" = true := by
  have hwords : HasWords { kinds := [("RO", "role"), ("ROI", "return")] } :=
    ⟨by decide, by decide, by decide, by decide⟩
  have hlong : Reads { kinds := [("RO", "role"), ("ROI", "return")] } "ROI00001\n" "ROI" "00001" :=
    ⟨by decide, by decide, by decide, by decide⟩
  refine ⟨_, hwords, (isValid_recognised hwords _).1.mpr ⟨_, _, hlong⟩,
    ((isValid_recognised hwords _).2.1 _ _ hlong).1,
    (isValid_recognised hwords _).2.2 "RO" ("RO", "00001") (by decide +kernel) (by decide +kernel) (by decide)⟩

end BusinessModel.IdScheme
