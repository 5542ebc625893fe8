import BusinessModel.Proofs.Identifier.Recognition
import BusinessModel.Proofs.Text.Numeral

/-!
Identifiers and numbers are inverse to each other: the identifier of a number is valid and is read as
its letters and its number, and an identifier that is written as numbers are is the one of its number.
-/

namespace BusinessModel.IdScheme

variable {s : IdScheme}

theorem format_natCast (s : IdScheme) (letters : String) (n : Nat) :
    s.format letters n = letters ++ String.ofList (Text.numeral s.digitLength.toNat n) := by
  rw [format, Text.intText, if_neg (by omega), Int.natAbs_natCast, Text.zeroFill_natText]

theorem all_isDecimal_of_isDigit {cs : List Char} (h : cs.all Char.isDigit = true) :
    cs.all Text.isDecimal = true :=
  List.all_eq_true.mpr fun c hc => Text.isDecimal_of_isDigit (List.all_eq_true.mp h c hc)

theorem reads_format {letters : String} (hletters : letters ∈ s.kinds.map (·.1)) (n : Nat) :
    s.Reads (s.format letters n) letters (String.ofList (Text.numeral s.digitLength.toNat n)) where
  inUse := hletters
  enough := by
    rw [String.length_ofList, Text.length_numeral]
    omega
  decimal := by
    rw [String.toList_ofList]
    exact all_isDecimal_of_isDigit Text.isDigit_numeral
  spelled := .inl (format_natCast s letters n)

section Words

variable (hwords : s.HasWords)

include hwords

theorem HasWords.split?_format {letters : String} (hletters : letters ∈ s.kinds.map (·.1)) (n : Nat) :
    split? (s.format letters n) =
      some (letters, String.ofList (Text.numeral s.digitLength.toNat n)) :=
  hwords.split?_of_reads (reads_format hletters n)

theorem HasWords.number?_format {letters : String} (hletters : letters ∈ s.kinds.map (·.1))
    (hwidth : s.digitLength ≤ maxIntDigits) {n : Nat} (hn : n < 10 ^ maxIntDigits) :
    number? (s.format letters n) = .ok (some n) := by
  have hlength : (Text.numeral s.digitLength.toNat n).length ≤ maxIntDigits := by
    have hdigits : (Nat.toDigits 10 n).length ≤ maxIntDigits :=
      (Nat.length_toDigits_le_iff (by decide) (by decide)).mpr hn
    rw [Text.length_numeral]
    omega
  rw [number?, hwords.split?_format hletters]
  simp only [Text.integerOfText_ofList Text.numeral_ne_nil Text.isDigit_numeral hlength,
    Text.ofDigitChars_numeral]
  rfl

theorem HasWords.format_inj {p q : String} (hp : p ∈ s.kinds.map (·.1)) (hq : q ∈ s.kinds.map (·.1))
    {m n : Nat} (h : s.format p m = s.format q n) : p = q ∧ m = n := by
  have hsplit := hwords.split?_format hp m
  rw [h, hwords.split?_format hq n] at hsplit
  obtain ⟨hletters, hdigits⟩ := Prod.mk.inj (Option.some.inj hsplit)
  have hvalue := congrArg (Nat.ofDigitChars 10 · 0) (String.ofList_injective hdigits)
  simp only [Text.ofDigitChars_numeral] at hvalue
  exact ⟨hletters.symm, hvalue.symm⟩

/-- An identifier in ASCII characters that ends in a digit is the one of its number, unless it has a
zero in front beyond the least number of digits. -/
theorem HasWords.format_number {text letters digits : String} (hread : s.Reads text letters digits)
    (hascii : ∀ c ∈ text.toList, c.toNat < 128) (hend : text.toList.getLast? ≠ some '\n')
    (hlength : digits.length ≤ maxIntDigits)
    (hzero : s.digitLength < digits.length → digits.toList.head? ≠ some '0') :
    ∃ n : Nat, number? text = .ok (some n) ∧ s.format letters n = text := by
  obtain rfl : text = letters ++ digits := by
    refine hread.spelled.resolve_right fun hfeed => hend ?_
    simp [hfeed]
  have hdigits : digits.toList.all Char.isDigit = true := by
    refine List.all_eq_true.mpr fun c hc => ?_
    exact Text.isDigit_of_isDecimal (hascii c (by simp [hc])) (List.all_eq_true.mp hread.decimal c hc)
  have hleast := hwords.digits
  have henough := hread.enough
  have hcount : digits.toList.length = digits.length := String.length_toList
  have hne : digits.toList ≠ [] := by
    intro hnil
    rw [hnil, List.length_nil] at hcount
    omega
  refine ⟨Nat.ofDigitChars 10 digits.toList 0, ?_, ?_⟩
  · have hnumber := Text.integerOfText_ofList hne hdigits (by rw [hcount]; exact hlength)
    rw [String.ofList_toList] at hnumber
    rw [number?, hwords.split?_of_reads hread]
    simp only [hnumber]
    rfl
  · rw [format_natCast, Text.numeral_ofDigitChars hdigits hne (by omega) fun hlt => hzero (by omega),
      String.ofList_toList]

/-- Identifiers of numbers are valid and read as what they are made of, so different letters or numbers
have different ones; and an identifier that is written like one of a number is that of its number. -/
theorem format_number_inverse (hwidth : s.digitLength ≤ maxIntDigits) :
    (∀ letters ∈ s.kinds.map (·.1), ∀ n : Nat, n < 10 ^ maxIntDigits →
      s.isValid (s.format letters n) = true ∧
      s.letters? (s.format letters n) = some letters ∧
      number? (s.format letters n) = .ok (some n) ∧
      ∃ digits, split? (s.format letters n) = some (letters, digits) ∧
        (digits.length : Int) = max s.digitLength (Nat.toDigits 10 n).length) ∧
    (∀ p ∈ s.kinds.map (·.1), ∀ q ∈ s.kinds.map (·.1), ∀ m n : Nat,
      s.format p m = s.format q n → p = q ∧ m = n) ∧
    ∀ text, s.isValid text = true → (∀ c ∈ text.toList, c.toNat < 128) →
      text.toList.getLast? ≠ some '\n' →
      (∀ parts, split? text = some parts → parts.2.length ≤ maxIntDigits ∧
        (s.digitLength < parts.2.length → parts.2.toList.head? ≠ some '0')) →
      ∃ letters, ∃ n : Nat, s.letters? text = some letters ∧ number? text = .ok (some n) ∧
        s.format letters n = text := by
  refine ⟨fun letters hletters n hn => ?_, fun p hp q hq m n h => hwords.format_inj hp hq h,
    fun text hvalid hascii hend hparts => ?_⟩
  · have hsplit := hwords.split?_format hletters n
    refine ⟨hwords.isValid_iff_reads.mpr ⟨_, _, reads_format hletters n⟩,
      letters?_eq_some_iff.mpr ⟨hletters, _, hsplit⟩, hwords.number?_format hletters hwidth hn, _, hsplit, ?_⟩
    have hleast := hwords.digits
    rw [String.length_ofList, Text.length_numeral]
    omega
  · obtain ⟨letters, digits, hread⟩ := hwords.isValid_iff_reads.mp hvalid
    have hsplit := hwords.split?_of_reads hread
    obtain ⟨hlength, hzero⟩ := hparts _ hsplit
    obtain ⟨n, hnumber, hformat⟩ := hwords.format_number hread hascii hend hlength hzero
    exact ⟨letters, n, letters?_eq_some_iff.mpr ⟨hread.inUse, digits, hsplit⟩, hnumber, hformat⟩

end Words

/-- The identifier of a number that is wider than the least number of digits, and the number of an
identifier with zeros. -/
theorem format_number_inverse_wide :
    ∃ s : IdScheme, s.HasWords ∧ s.digitLength = 3 ∧
      number? (s.format "AC" 12345) = .ok (some 12345) ∧
      ∃ letters, ∃ n : Nat, s.letters? "AC007" = some letters ∧ number? "AC007" = .ok (some n) ∧
        s.format letters n = "AC007" := by
  have hwords : HasWords { kinds := [("AC", "actor")], digitLength := 3 } :=
    ⟨by decide, by decide, by decide, by decide⟩
  have hinverse := format_number_inverse hwords (by decide)
  have hascii : "AC007".toList.all (fun c => c.toNat < 128) = true := by decide
  refine ⟨_, hwords, rfl, (hinverse.1 "AC" (by decide) 12345 (by decide +kernel)).2.2.1,
    hinverse.2.2 "AC007" (by decide +kernel)
      (fun c hc => of_decide_eq_true (List.all_eq_true.mp hascii c hc)) (by decide)
      fun parts hparts => ?_⟩
  cases hparts
  decide

end BusinessModel.IdScheme
