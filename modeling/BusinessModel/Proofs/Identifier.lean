import BusinessModel.Identifier
import BusinessModel.Proofs.Pattern.Matching
import BusinessModel.Proofs.Pointer

/-!
Which texts are valid identifiers: letters in use, enough decimal digits, and a line feed or nothing
behind them. Such a text is written in a pointer as it is, and it is no index.
-/

namespace BusinessModel

namespace IdScheme

/-- The letters in use are words of capital letters, there are some, and identifiers have a digit
at least. -/
structure HasWords (s : IdScheme) : Prop where
  inUse : s.kinds ≠ []
  nonempty : ∀ p ∈ s.kinds, p.1 ≠ ""
  capital : ∀ p ∈ s.kinds, p.1.toList.all isCapital = true
  digits : 1 ≤ s.digitLength

/-! ### What the pattern of identifiers matches -/

section Run

variable {before rest : List Char} {groups : List (Nat × List Char)} {k : Pattern.Continuation}

theorem run_literal {cs : List Char} :
    ((literal cs).run ⟨before, rest, groups⟩ k).isSome ↔
      ∃ more, rest = cs ++ more ∧ (k ⟨cs.reverse ++ before, more, groups⟩).isSome := by
  induction cs generalizing before rest with
  | nil => simp [literal]
  | cons c cs ih =>
    cases rest with
    | nil => simp [literal]
    | cons d rest =>
      by_cases hd : d = c
      · subst hd
        simp [literal, ih]
      · simp [literal, hd]

/-- One of several literals is matched, whichever lets the rest match. -/
theorem run_oneOf {words : List String} (hwords : words ≠ []) :
    ((oneOf words).run ⟨before, rest, groups⟩ k).isSome ↔
      ∃ w ∈ words, ∃ more, rest = w.toList ++ more ∧
        (k ⟨w.toList.reverse ++ before, more, groups⟩).isSome := by
  induction words with
  | nil => exact absurd rfl hwords
  | cons w words ih =>
    cases words with
    | nil => simp [oneOf, run_literal]
    | cons w' words =>
      rw [oneOf, Pattern.run_alt, isSome_orElse_iff, run_literal, ih (by simp)]
      · simp only [List.mem_cons, exists_eq_or_imp]
      · simp

/-- The end of the pattern: digits, enough of them, up to the end or to a line feed that ends the
text. -/
theorem run_digits_textEnd {least : Nat} :
    ((Pattern.seq (.repeated .greedy least none (.char (.digit false))) (.anchor .textEnd)).run
      ⟨before, rest, groups⟩ some).isSome ↔
      ∃ digits, least ≤ digits.length ∧ digits.all Text.isDecimal = true ∧
        (rest = digits ∨ rest = digits ++ ['\n']) := by
  have hdecimal : (CharTest.digit false).accepts = Text.isDecimal := funext CharTest.accepts_digit
  rw [Pattern.run_many_textEnd_iff, hdecimal]

end Run

/-! ### Valid identifiers -/

theorem isPlainChar_of_isCapital {c : Char} (h : isCapital c = true) : isPlainChar c = true := by
  rw [isPlainChar, Bool.not_eq_true', Bool.eq_false_iff]
  intro hspecial
  rw [List.contains_iff_mem] at hspecial
  have hnone : (".^$*+?\x7b[\\|()".toList.all fun d => !isCapital d) = true := by decide
  have hc := List.all_eq_true.mp hnone c hspecial
  rw [h] at hc
  cases hc

theorem HasWords.isPlain {s : IdScheme} (hwords : s.HasWords) : s.isPlain = true := by
  rw [IdScheme.isPlain, Bool.and_eq_true, decide_eq_true_eq, List.all_eq_true]
  refine ⟨by have hdigits := hwords.digits; omega, fun p hp => List.all_eq_true.mpr fun c hc => ?_⟩
  exact isPlainChar_of_isCapital (List.all_eq_true.mp (hwords.capital p hp) c hc)

/-- A text is a valid identifier if it is letters in use followed by enough decimal digits, and a
line feed or nothing behind them. -/
theorem isValid_iff {s : IdScheme} (hwords : s.HasWords) (text : String) :
    s.isValid text = true ↔ ∃ p ∈ s.kinds, ∃ digits, s.digitLength.toNat ≤ digits.length ∧
      digits.all Text.isDecimal = true ∧
        (text.toList = p.1.toList ++ digits ∨ text.toList = p.1.toList ++ digits ++ ['\n']) := by
  have hmem (w : String) : w ∈ s.alternatives ↔ ∃ p ∈ s.kinds, p.1 = w := by
    rw [alternatives, List.mem_mergeSort, List.mem_map]
  have halternatives : s.alternatives ≠ [] := by
    obtain ⟨p, hp⟩ := List.exists_mem_of_ne_nil _ hwords.inUse
    exact List.ne_nil_of_mem ((hmem p.1).mpr ⟨p, hp, rfl⟩)
  rw [isValid, pattern?, if_pos hwords.isPlain, Option.any_some]
  change ((oneOf s.alternatives).run ⟨[], text.toList, []⟩ fun spot =>
    (Pattern.seq (.repeated .greedy s.digitLength.toNat none (.char (.digit false)))
      (.anchor .textEnd)).run ⟨spot.before, spot.rest, _⟩ some).isSome ↔ _
  rw [run_oneOf halternatives]
  simp only [run_digits_textEnd]
  constructor
  · rintro ⟨w, hw, more, htext, digits, hlength, hdigits, hmore⟩
    obtain ⟨p, hp, rfl⟩ := (hmem w).mp hw
    refine ⟨p, hp, digits, hlength, hdigits, ?_⟩
    rw [htext, List.append_assoc]
    exact hmore.imp (congrArg _) (congrArg _)
  · rintro ⟨p, hp, digits, hlength, hdigits, htext⟩
    rcases htext with htext | htext
    · exact ⟨p.1, (hmem p.1).mpr ⟨p, hp, rfl⟩, _, htext, digits, hlength, hdigits, Or.inl rfl⟩
    · rw [List.append_assoc] at htext
      exact ⟨p.1, (hmem p.1).mpr ⟨p, hp, rfl⟩, _, htext, digits, hlength, hdigits, Or.inr rfl⟩

section Valid

variable {s : IdScheme} (hwords : s.HasWords)

include hwords

/-- A valid identifier begins with a capital letter. -/
theorem HasWords.exists_cons {text : String} (hvalid : s.isValid text = true) :
    ∃ c cs, text.toList = c :: cs ∧ isCapital c = true := by
  obtain ⟨p, hp, digits, -, -, htext⟩ := (isValid_iff hwords text).mp hvalid
  cases hword : p.1.toList with
  | nil => exact absurd (String.toList_eq_nil_iff.mp hword) (hwords.nonempty p hp)
  | cons c cs =>
    have hc : isCapital c = true :=
      List.all_eq_true.mp (hwords.capital p hp) c (by rw [hword]; exact List.mem_cons_self)
    rcases htext with htext | htext
    · exact ⟨c, cs ++ digits, by simp [htext, hword], hc⟩
    · exact ⟨c, cs ++ digits ++ ['\n'], by simp [htext, hword], hc⟩

/-- A character that is no capital letter, no decimal digit and no line feed is in no identifier. -/
theorem HasWords.notMem {text : String} (hvalid : s.isValid text = true) {c : Char}
    (hcapital : isCapital c = false) (hdecimal : Text.isDecimal c = false) (hfeed : c ≠ '\n') :
    c ∉ text.toList := by
  obtain ⟨p, hp, digits, -, hdigits, htext⟩ := (isValid_iff hwords text).mp hvalid
  have hletters : c ∉ p.1.toList := fun hc => by
    simp [List.all_eq_true.mp (hwords.capital p hp) c hc] at hcapital
  have hnumber : c ∉ digits := fun hc => by
    simp [List.all_eq_true.mp hdigits c hc] at hdecimal
  rcases htext with htext | htext <;> simp [htext, hletters, hnumber, hfeed]

/-- A valid identifier is written in a pointer as it is. -/
theorem HasWords.escape_eq {text : String} (hvalid : s.isValid text = true) :
    Pointer.escape text = text :=
  Pointer.escape_eq_self (Or.inr ⟨hwords.notMem hvalid rfl (by decide) (by decide),
    hwords.notMem hvalid rfl (by decide) (by decide)⟩)

/-- A text is written as a valid identifier only if it is one. -/
theorem HasWords.isValid_escape (text : String) :
    s.isValid (Pointer.escape text) = s.isValid text := by
  rw [Bool.eq_iff_iff]
  constructor
  · intro hvalid
    rwa [Pointer.escape_eq_self (Or.inl (hwords.notMem hvalid rfl (by decide) (by decide)))]
      at hvalid
  · intro hvalid
    rwa [hwords.escape_eq hvalid]

theorem HasWords.isValid_empty : s.isValid "" = false := by
  rw [← Bool.not_eq_true]
  intro hvalid
  obtain ⟨c, cs, hcons, -⟩ := hwords.exists_cons hvalid
  cases hcons

/-- The number of an item is no identifier. -/
theorem HasWords.isValid_intText (n : Int) : s.isValid (Text.intText n) = false := by
  rw [← Bool.not_eq_true]
  intro hvalid
  obtain ⟨c, cs, hcons, hcapital⟩ := hwords.exists_cons hvalid
  have hmem : c ∈ '-' :: Nat.toDigits 10 n.natAbs := by
    unfold Text.intText Text.natText at hcons
    split at hcons
    · rw [String.toList_append, String.toList_ofList] at hcons
      obtain ⟨rfl, -⟩ := List.cons.inj hcons
      exact List.mem_cons_self
    · rw [String.toList_ofList] at hcons
      rw [hcons]
      exact List.mem_cons_of_mem _ List.mem_cons_self
  rcases List.mem_cons.mp hmem with rfl | hmem
  · cases hcapital
  · have hdigit := Nat.isDigit_of_mem_toDigits (by decide) (by decide) hmem
    simp only [Char.isDigit, isCapital, Bool.and_eq_true, decide_eq_true_eq, Char.le_def,
      UInt32.le_iff_toNat_le] at hdigit hcapital
    have hupper : c.val.toNat ≤ 57 := hdigit.2
    have hlower : 65 ≤ c.val.toNat := hcapital.1
    omega

end Valid

end IdScheme

end BusinessModel
