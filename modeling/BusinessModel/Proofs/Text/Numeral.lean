import BusinessModel.Number.Reading
import Mathlib.Data.List.Basic
import Mathlib.Data.Nat.Digits.Defs

/-!
Numerals: the decimal digits of a number, filled with zeros up to a width. A numeral is read as the
number again, and it is the only one of its length that is.
-/

namespace BusinessModel.Text

/-! ### Digits and their values -/

section Digits

variable {c : Char} {cs ds : List Char}

theorem isDigit_iff : c.isDigit = true ↔ 48 ≤ c.toNat ∧ c.toNat ≤ 57 := by
  simp only [Char.isDigit, Bool.and_eq_true, decide_eq_true_eq, ge_iff_le, UInt32.le_iff_toNat_le]
  exact Iff.rfl

theorem digitValue?_of_isDigit (h : c.isDigit = true) : digitValue? c = some (c.toNat - 48) := by
  obtain ⟨hlow, hhigh⟩ := isDigit_iff.mp h
  rw [digitValue?]
  rw [if_pos (by omega), if_pos ⟨hlow, hhigh⟩]

theorem isDecimal_of_isDigit (h : c.isDigit = true) : isDecimal c = true := by
  rw [isDecimal, digitValue?_of_isDigit h, Option.isSome_some]

theorem isDigit_of_isDecimal (hascii : c.toNat < 128) (h : isDecimal c = true) : c.isDigit = true := by
  rw [isDecimal, digitValue?] at h
  rw [if_pos hascii] at h
  split at h
  · next hrange => exact isDigit_iff.mpr hrange
  · cases h

theorem isBlank_of_isDigit (h : c.isDigit = true) : isBlank c = false := by
  obtain ⟨hlow, hhigh⟩ := isDigit_iff.mp h
  rw [isBlank]
  rw [if_pos (by omega)]
  simp only [Bool.or_eq_false_iff, Bool.and_eq_false_iff, decide_eq_false_iff_not]
  omega

theorem digitsValue_eq (h : cs.all Char.isDigit = true) : digitsValue cs = Nat.ofDigitChars 10 cs 0 := by
  rw [digitsValue, Nat.ofDigitChars_eq_foldl]
  refine List.foldl_ext _ _ _ fun n c hc => ?_
  rw [digitValue?_of_isDigit (List.all_eq_true.mp h c hc)]
  rfl

theorem ofDigitChars_cons_zero (c : Char) (cs : List Char) :
    Nat.ofDigitChars 10 (c :: cs) 0 = 10 ^ cs.length * (c.toNat - 48) + Nat.ofDigitChars 10 cs 0 := by
  rw [Nat.ofDigitChars_cons, Nat.ofDigitChars_eq_ofDigitChars_zero]
  simp

theorem ofDigitChars_lt (h : cs.all Char.isDigit = true) : Nat.ofDigitChars 10 cs 0 < 10 ^ cs.length := by
  induction cs with
  | nil => simp
  | cons c cs ih =>
    rw [List.all_cons, Bool.and_eq_true] at h
    rw [ofDigitChars_cons_zero, List.length_cons, Nat.pow_succ]
    have hdigit := isDigit_iff.mp h.1
    have hfirst : 10 ^ cs.length * (c.toNat - 48) ≤ 10 ^ cs.length * 9 :=
      Nat.mul_le_mul_left _ (by omega)
    have hrest := ih h.2
    omega

/-- A number is at least as long as its digits from the first that is not zero. -/
theorem le_ofDigitChars (h : (c :: cs).all Char.isDigit = true) (hzero : c ≠ '0') :
    10 ^ cs.length ≤ Nat.ofDigitChars 10 (c :: cs) 0 := by
  have hdigit := isDigit_iff.mp (List.all_eq_true.mp h c List.mem_cons_self)
  have hne : c.toNat ≠ 48 := fun heq => hzero (Char.toNat_inj.mp heq)
  rw [ofDigitChars_cons_zero]
  exact Nat.le_add_right_of_le (Nat.le_mul_of_pos_right _ (by omega))

/-- Equally many digits are the same if their values are. -/
theorem eq_of_ofDigitChars (hcs : cs.all Char.isDigit = true) (hds : ds.all Char.isDigit = true)
    (hlength : cs.length = ds.length) (h : Nat.ofDigitChars 10 cs 0 = Nat.ofDigitChars 10 ds 0) :
    cs = ds := by
  induction cs generalizing ds with
  | nil => exact (List.length_eq_zero_iff.mp hlength.symm).symm
  | cons c cs ih =>
    cases ds with
    | nil => cases hlength
    | cons d ds =>
      simp only [List.length_cons, Nat.add_right_cancel_iff] at hlength
      rw [List.all_cons, Bool.and_eq_true] at hcs hds
      rw [ofDigitChars_cons_zero, ofDigitChars_cons_zero, hlength] at h
      have hcrest := ofDigitChars_lt hcs.2
      have hdrest := ofDigitChars_lt hds.2
      rw [hlength] at hcrest
      have hfirst : c.toNat - 48 = d.toNat - 48 := by
        have hdiv := congrArg (· / 10 ^ ds.length) h
        simpa [Nat.mul_add_div, Nat.div_eq_of_lt hcrest, Nat.div_eq_of_lt hdrest] using hdiv
      rw [hfirst, Nat.add_left_cancel_iff] at h
      have hc := isDigit_iff.mp hcs.1
      have hd := isDigit_iff.mp hds.1
      rw [ih hcs.2 hds.2 hlength h, Char.toNat_inj.mp (by omega : c.toNat = d.toNat)]

/-- Zeros in front leave the value of digits as it is. -/
theorem digitsValue_zeros (n : Nat) (cs : List Char) :
    digitsValue (List.replicate n '0' ++ cs) = digitsValue cs := by
  induction n with
  | zero => rfl
  | succ n ih => exact ih

/-- Digits are filled with zeros in front, since none of them is a sign. -/
theorem zeroFill_ofList (h : cs.all isDecimal = true) (width : Nat) :
    zeroFill width (String.ofList cs) =
      String.ofList (List.replicate (width - cs.length) '0' ++ cs) := by
  rw [zeroFill, String.toList_ofList]
  split
  · exact absurd (List.all_eq_true.mp h '-' List.mem_cons_self) (by decide)
  · exact absurd (List.all_eq_true.mp h '+' List.mem_cons_self) (by decide)
  · rfl

end Digits

/-! ### Numerals -/

theorem all_isDigit_toDigits (n : Nat) : (Nat.toDigits 10 n).all Char.isDigit = true :=
  List.all_eq_true.mpr fun _ hc => Nat.isDigit_of_mem_toDigits (by decide) (by decide) hc

theorem all_isDecimal_toDigits (n : Nat) : (Nat.toDigits 10 n).all isDecimal = true :=
  List.all_eq_true.mpr fun c hc =>
    isDecimal_of_isDigit (List.all_eq_true.mp (all_isDigit_toDigits n) c hc)

/-- The digits of a number, filled with zeros up to a width. -/
def numeral (width n : Nat) : List Char :=
  List.replicate (width - (Nat.toDigits 10 n).length) '0' ++ Nat.toDigits 10 n

section Numeral

variable {width n : Nat}

theorem isDigit_numeral : (numeral width n).all Char.isDigit = true := by
  rw [numeral, List.all_append, Bool.and_eq_true]
  constructor
  · simp
  · exact all_isDigit_toDigits n

theorem length_numeral : (numeral width n).length = max width (Nat.toDigits 10 n).length := by
  rw [numeral, List.length_append, List.length_replicate]
  omega

theorem numeral_ne_nil : numeral width n ≠ [] := by
  simp [numeral, Nat.toDigits_ne_nil]

theorem ofDigitChars_numeral : Nat.ofDigitChars 10 (numeral width n) 0 = n := by
  rw [numeral, Nat.ofDigitChars_append, Nat.ofDigitChars_replicate_zero, Nat.mul_zero,
    Nat.ofDigitChars_ten_toDigits]

/-- Digits are the numeral of their value, if they are wide enough and have no zero in front beyond
the width. -/
theorem numeral_ofDigitChars {cs : List Char} (hdigits : cs.all Char.isDigit = true) (hne : cs ≠ [])
    (hwidth : width ≤ cs.length) (hzero : width < cs.length → cs.head? ≠ some '0') :
    numeral width (Nat.ofDigitChars 10 cs 0) = cs := by
  refine eq_of_ofDigitChars isDigit_numeral hdigits ?_ ofDigitChars_numeral
  have hpos : 0 < cs.length := List.length_pos_iff.mpr hne
  have hle : (Nat.toDigits 10 (Nat.ofDigitChars 10 cs 0)).length ≤ cs.length :=
    (Nat.length_toDigits_le_iff (by decide) hpos).mpr (ofDigitChars_lt hdigits)
  rw [length_numeral]
  rcases Nat.lt_or_eq_of_le hwidth with hlt | heq
  · cases cs with
    | nil => exact absurd rfl hne
    | cons c cs =>
      have hvalue := le_ofDigitChars hdigits (by simpa using hzero hlt)
      have hlong : cs.length < (Nat.toDigits 10 (Nat.ofDigitChars 10 (c :: cs) 0)).length := by
        by_contra hshort
        rcases Nat.eq_zero_or_pos cs.length with hnil | hsome
        · have := Nat.length_toDigits_pos (b := 10) (n := Nat.ofDigitChars 10 (c :: cs) 0)
          omega
        · have := (Nat.length_toDigits_le_iff (by decide) hsome).mp (Nat.le_of_not_lt hshort)
          omega
      simp only [List.length_cons] at hle hlt ⊢
      omega
  · omega

theorem zeroFill_natText (width n : Nat) :
    zeroFill width (natText n) = String.ofList (numeral width n) := by
  rw [natText, zeroFill_ofList (all_isDecimal_toDigits n)]
  rfl

theorem zeroFill_neg_natText (width n : Nat) :
    zeroFill width ("-" ++ natText n) = String.ofList ('-' :: numeral (width - 1) n) := by
  have hcs : ("-" ++ natText n).toList = '-' :: Nat.toDigits 10 n := by
    simp [natText]
  rw [zeroFill, hcs]
  simp only [List.length_cons, numeral]
  rw [Nat.add_comm, Nat.sub_add_eq]
  rfl

/-- A numeral is read as its number, or is too long. -/
theorem integerOfText_ofList_eq {cs : List Char} (hne : cs ≠ []) (hdigits : cs.all Char.isDigit = true) :
    integerOfText (String.ofList cs) =
      if cs.length > maxIntDigits then .error (tooManyDigits cs.length)
      else .ok (Nat.ofDigitChars 10 cs 0 : Int) := by
  have hdigit (c : Char) (hc : c ∈ cs) : c.isDigit = true := List.all_eq_true.mp hdigits c hc
  have hne_of (d : Char) (hd : d.isDigit = false) : d ∉ cs := fun hmem => by
    rw [hdigit d hmem] at hd
    cases hd
  -- A digit is no blank, no sign and no underscore.
  have hstrip : (strip (String.ofList cs)).toList = cs := by
    have hkeep (ds : List Char) (h : ∀ c ∈ ds, c.isDigit = true) : ds.dropWhile isBlank = ds := by
      cases ds with
      | nil => rfl
      | cons d ds => simp [isBlank_of_isDigit (h d List.mem_cons_self)]
    rw [strip, String.toList_ofList, String.toList_ofList, hkeep cs hdigit,
      hkeep cs.reverse fun c hc => hdigit c (List.mem_reverse.mp hc), List.reverse_reverse]
  have hsign : splitSign cs = (false, cs) := by
    unfold splitSign
    split
    · exact absurd List.mem_cons_self (hne_of '-' rfl)
    · exact absurd List.mem_cons_self (hne_of '+' rfl)
    · rfl
  have hplain (c : Char) (hc : c ∈ cs) : (c == '_') = false :=
    beq_eq_false_iff_ne.mpr fun heq => hne_of '_' rfl (heq ▸ hc)
  have hspaced : isSpacedNumber cs = true := by
    have hdecimal (c : Char) (hc : c ∈ cs) : isDecimal c = true := isDecimal_of_isDigit (hdigit c hc)
    obtain ⟨c, ds, rfl⟩ := List.exists_cons_of_ne_nil hne
    simp only [isSpacedNumber, Bool.and_eq_true, Bool.not_eq_true', List.any_eq_false,
      List.all_eq_true, List.head?_cons, List.getLast?_eq_some_getLast hne, Option.any_some]
    refine ⟨⟨⟨hdecimal c List.mem_cons_self, hdecimal _ (List.getLast_mem hne)⟩, fun d hd => ?_⟩, ?_⟩
    · rw [hdecimal d hd, Bool.or_true]
    · rintro ⟨d, e⟩ hpair
      simp [hplain d (List.of_mem_zip hpair).1]
  have hfilter : cs.filter (· != '_') = cs := by
    refine List.filter_eq_self.mpr fun c hc => ?_
    simp [bne, hplain c hc]
  rw [integerOfText, hstrip, hsign]
  simp only [hspaced, hfilter]
  rw [if_neg (by simp), digitsValue_eq hdigits]
  rfl

theorem integerOfText_ofList {cs : List Char} (hne : cs ≠ []) (hdigits : cs.all Char.isDigit = true)
    (hlength : cs.length ≤ maxIntDigits) :
    integerOfText (String.ofList cs) = .ok (Nat.ofDigitChars 10 cs 0 : Int) := by
  rw [integerOfText_ofList_eq hne hdigits, if_neg (Nat.not_lt.mpr hlength)]

end Numeral

end BusinessModel.Text
