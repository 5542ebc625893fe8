import BusinessModel.Diagnostic.PatternAdvice
import BusinessModel.Proofs.Pattern.Reading

/-!
What the advice on patterns reads out of the texts of patterns and of the values that do not match them.
Patterns of identifiers are read back to their letters and their least number of digits.
-/

namespace BusinessModel.PatternAdvice

open Pattern IdScheme

/-! ### Pieces between bars -/

theorem exists_cons_alternatives (cs : List Char) : ∃ piece pieces, alternatives cs = piece :: pieces := by
  induction cs with
  | nil => exact ⟨[], [], rfl⟩
  | cons c rest ih =>
    obtain ⟨piece, pieces, hpieces⟩ := ih
    rw [alternatives, hpieces]
    dsimp only
    split
    · exact ⟨_, _, rfl⟩
    · exact ⟨_, _, rfl⟩

theorem alternatives_of_notMem {piece : List Char} (h : '|' ∉ piece) : alternatives piece = [piece] := by
  induction piece with
  | nil => rfl
  | cons c piece ih =>
    rw [List.mem_cons, not_or] at h
    rw [alternatives, ih h.2]
    simp [Ne.symm h.1]

theorem alternatives_append {piece : List Char} (h : '|' ∉ piece) (rest : List Char) :
    alternatives (piece ++ '|' :: rest) = piece :: alternatives rest := by
  induction piece with
  | nil =>
    obtain ⟨first, more, hpieces⟩ := exists_cons_alternatives rest
    rw [List.nil_append, alternatives, hpieces]
    rfl
  | cons c piece ih =>
    rw [List.mem_cons, not_or] at h
    rw [List.cons_append, alternatives, ih h.2]
    simp [Ne.symm h.1]

/-- Pieces without bars that are put together with bars are found again. -/
theorem alternatives_intercalate {pieces : List (List Char)} (hne : pieces ≠ [])
    (h : ∀ piece ∈ pieces, '|' ∉ piece) : alternatives (['|'].intercalate pieces) = pieces := by
  induction pieces with
  | nil => exact absurd rfl hne
  | cons piece pieces ih =>
    have hpiece := h piece List.mem_cons_self
    cases pieces with
    | nil => rw [List.intercalate_singleton, alternatives_of_notMem hpiece]
    | cons next pieces =>
      rw [List.intercalate_cons_cons, List.append_assoc, List.singleton_append,
        alternatives_append hpiece, ih (List.cons_ne_nil next pieces) fun piece hmem =>
          h piece (List.mem_cons_of_mem _ hmem)]

theorem skip_of_ne {c : Char} {cs : List Char} (h : cs.head? ≠ some c) : skip c cs = cs := by
  cases cs with
  | nil => rfl
  | cons d rest =>
    have hd : (d == c) = false := by simpa using h
    rw [skip, hd]
    rfl

theorem all_intercalate {p : Char → Bool} {separator : List Char} {pieces : List (List Char)}
    (hseparator : separator.all p = true) (h : ∀ piece ∈ pieces, piece.all p = true) :
    (separator.intercalate pieces).all p = true := by
  induction pieces with
  | nil => rfl
  | cons piece pieces ih =>
    have hpiece := h piece List.mem_cons_self
    have hrest := ih fun piece hmem => h piece (List.mem_cons_of_mem _ hmem)
    cases pieces with
    | nil => rwa [List.intercalate_singleton]
    | cons next pieces =>
      rw [List.intercalate_cons_cons, List.all_append, List.all_append, hpiece, hseparator, hrest]
      rfl

/-! ### Patterns of identifiers -/

section IdText

variable {words : List String} {n : Nat} {text : String}

/-- The letters of a pattern of identifiers, with a parenthesis around them or without one. -/
theorem idPattern?_of_toList (h : IsIdText words n text) {front back : List Char}
    (htext : text.toList = '^' :: front)
    (hfront : skip '(' front = ['|'].intercalate (words.map String.toList) ++ back)
    (hback : skip ')' back = '\\' :: 'd' :: '\x7b' :: (Nat.toDigits 10 n ++ [',', '\x7d', '$']))
    (hstop : back.head?.all (fun c => !(isUpper c || c == '|')) = true) :
    idPattern? text = some ⟨words, Nat.toDigits 10 n⟩ := by
  have hcapital : ∀ piece ∈ words.map String.toList, piece.all isUpper = true := fun piece hmem => by
    obtain ⟨w, hw, rfl⟩ := List.mem_map.mp hmem
    exact h.capital w hw
  have hbar : ∀ piece ∈ words.map String.toList, '|' ∉ piece := fun piece hmem hin =>
    absurd (List.all_eq_true.mp (hcapital piece hmem) '|' hin) (by decide)
  have hletters : (['|'].intercalate (words.map String.toList)).all (fun c => isUpper c || c == '|') =
      true := all_intercalate rfl fun piece hmem =>
    List.all_eq_true.mpr fun c hc => by simp [List.all_eq_true.mp (hcapital piece hmem) c hc]
  have hpieces : alternatives (['|'].intercalate (words.map String.toList)) = words.map String.toList :=
    alternatives_intercalate (by simpa using h.inUse) hbar
  have hlength : (words.map String.toList).all (fun p => p.length == 2 || p.length == 3) = true := by
    rw [List.all_map, List.all_eq_true]
    intro w hw
    simpa [String.length_toList] using h.length w hw
  obtain ⟨htaken, -⟩ := takeWhile_append_of_all hletters hstop
  have hdigits : (Nat.toDigits 10 n ++ [',', '\x7d', '$']).takeWhile Text.isDecimal = Nat.toDigits 10 n :=
    (takeWhile_append_of_all (Text.all_isDecimal_toDigits n) rfl).1
  unfold idPattern?
  rw [htext]
  simp only [hfront, htaken, List.drop_left, hback, hdigits, hpieces]
  change (if (true && !(Nat.toDigits 10 n).isEmpty && (words.map String.toList).all _) = true then _
    else none) = _
  rw [if_pos (by simp [hlength, Nat.toDigits_ne_nil])]
  simp

/-- A pattern of identifiers is read back to its letters and the least number of its digits. -/
theorem idPattern?_of_isIdText (h : IsIdText words n text) :
    idPattern? text = some ⟨words, Nat.toDigits 10 n⟩ := by
  rcases h.spelled with ⟨word, rfl, htext⟩ | htext
  · have hchars : text.toList = '^' :: (word.toList ++
        '\\' :: 'd' :: '\x7b' :: (Nat.toDigits 10 n ++ [',', '\x7d', '$'])) := by
      simp [htext, Text.natText]
    have hsome : word.toList ≠ [] := by
      intro hnil
      have hlength := h.length word List.mem_cons_self
      rw [← String.length_toList, hnil] at hlength
      simp at hlength
    obtain ⟨c, rest, hcons⟩ := List.exists_cons_of_ne_nil hsome
    have hcapital := h.capital word List.mem_cons_self
    have hopen : (word.toList ++
        '\\' :: 'd' :: '\x7b' :: (Nat.toDigits 10 n ++ [',', '\x7d', '$'])).head? ≠ some '(' := by
      rw [hcons] at hcapital ⊢
      intro heq
      cases Option.some.inj heq
      cases hcapital
    have hletters : skip '(' (word.toList ++
        '\\' :: 'd' :: '\x7b' :: (Nat.toDigits 10 n ++ [',', '\x7d', '$'])) =
        ['|'].intercalate ([word].map String.toList) ++
          '\\' :: 'd' :: '\x7b' :: (Nat.toDigits 10 n ++ [',', '\x7d', '$']) := by
      rw [skip_of_ne hopen, List.map_singleton, List.intercalate_singleton]
    exact idPattern?_of_toList h hchars hletters rfl rfl
  · have hchars : text.toList = '^' :: '(' :: (['|'].intercalate (words.map String.toList) ++
        ')' :: '\\' :: 'd' :: '\x7b' :: (Nat.toDigits 10 n ++ [',', '\x7d', '$'])) := by
      simp [htext, Text.natText, String.toList_intercalate]
    exact idPattern?_of_toList h hchars rfl rfl rfl

/-- A pattern of identifiers ends in no unit. -/
theorem firstUnit?_of_isIdText (h : IsIdText words n text) : firstUnit? text = none := by
  obtain ⟨front, hfront⟩ : ∃ front, text.toList = front ++ [',', '\x7d', '$'] := by
    rcases h.spelled with ⟨word, -, rfl⟩ | rfl
    · exact ⟨_, String.toList_append⟩
    · exact ⟨_, String.toList_append⟩
  unfold firstUnit?
  rw [hfront, List.reverse_append]
  rfl

end IdText

/-- The least number of digits is told, unless it is written with too many digits itself. -/
theorem width_eq_ok_iff {words : List String} {n m : Nat} :
    IdPattern.width ⟨words, Nat.toDigits 10 n⟩ = .ok m ↔
      (Nat.toDigits 10 n).length ≤ maxIntDigits ∧ m = n := by
  -- the equation of the definition would make the numeral be evaluated
  delta IdPattern.width
  dsimp only
  rw [Text.integerOfText_ofList_eq Nat.toDigits_ne_nil (Text.all_isDigit_toDigits n),
    Nat.ofDigitChars_ten_toDigits]
  by_cases hlong : (Nat.toDigits 10 n).length > maxIntDigits
  · rw [if_pos hlong]
    exact iff_of_false nofun fun h => absurd h.1 (Nat.not_le.mpr hlong)
  · rw [if_neg hlong]
    simp only [Int.toNat_natCast, Except.ok.injEq, Nat.not_lt.mp hlong, true_and]
    exact eq_comm

/-! ### Values -/

/-- A text looks like an identifier: it is two or three letters from A to Z in either case and decimal
digits, and a line feed or nothing behind them. -/
structure LooksLikeId (text letters digits : String) : Prop where
  alphabetic : letters.toList.all (fun c => isUpper c || isLower c) = true
  length : letters.length = 2 ∨ letters.length = 3
  nonempty : digits ≠ ""
  decimal : digits.toList.all Text.isDecimal = true
  spelled : text = letters ++ digits ∨ text = letters ++ digits ++ "\n"

theorem toNat_of_letter {c : Char} (h : (isUpper c || isLower c) = true) :
    65 ≤ c.toNat ∧ c.toNat ≤ 122 := by
  simp only [isUpper, isLower, Bool.or_eq_true, Bool.and_eq_true, decide_eq_true_eq] at h
  rcases h with ⟨hlow, hhigh⟩ | ⟨hlow, hhigh⟩
  · have hlow : 65 ≤ c.toNat := hlow
    have hhigh : c.toNat ≤ 90 := hhigh
    omega
  · have hlow : 97 ≤ c.toNat := hlow
    have hhigh : c.toNat ≤ 122 := hhigh
    omega

theorem isDecimal_of_letter {c : Char} (h : (isUpper c || isLower c) = true) :
    Text.isDecimal c = false := by
  obtain ⟨hlow, hhigh⟩ := toNat_of_letter h
  rw [Text.isDecimal, Text.digitValue?]
  rw [if_pos (by omega), if_neg (by omega), Option.isSome_none]

theorem isEnd_iff {cs : List Char} : isEnd cs = true ↔ cs = [] ∨ cs = ['\n'] := by
  simp [isEnd]

theorem idLike?_of_looksLikeId {text letters digits : String} (h : LooksLikeId text letters digits) :
    idLike? text = some (letters, digits) := by
  obtain ⟨tail, htail, htext⟩ : ∃ tail, isEnd tail = true ∧
      text.toList = letters.toList ++ (digits.toList ++ tail) := by
    rcases h.spelled with rfl | rfl
    · exact ⟨[], rfl, by simp⟩
    · exact ⟨['\n'], rfl, by simp⟩
  have hnumber : (digits.toList ++ tail).head?.all (fun c => !(isUpper c || isLower c)) = true :=
    head?_digits (fun _ => isDecimal_of_letter) (mt String.toList_eq_nil_iff.mp h.nonempty) h.decimal
  obtain ⟨hletters, -⟩ := takeWhile_append_of_all h.alphabetic hnumber
  obtain ⟨hdigits, -⟩ := takeWhile_append_of_all h.decimal (head?_lineEnd (isEnd_iff.mp htail))
  simp only [idLike?, htext, hletters, List.drop_left, hdigits, htail]
  rw [if_pos]
  · simp
  · simpa [String.length_toList, h.nonempty] using h.length

theorem eq_of_isEnd {text : String} {front back tail : List Char}
    (htext : front ++ (back ++ tail) = text.toList) (htail : isEnd tail = true) :
    text = String.ofList front ++ String.ofList back ∨
      text = String.ofList front ++ String.ofList back ++ "\n" := by
  rw [← String.toList_inj, ← String.toList_inj, ← htext]
  rcases isEnd_iff.mp htail with rfl | rfl
  · exact .inl (by simp)
  · exact .inr (by simp)

theorem drop_length_of_append {xs ys zs : List Char} (h : xs ++ ys = zs) : zs.drop xs.length = ys := by
  rw [← h, List.drop_left]

theorem idLike?_eq_some_iff {text letters digits : String} :
    idLike? text = some (letters, digits) ↔ LooksLikeId text letters digits := by
  refine ⟨fun h => ?_, idLike?_of_looksLikeId⟩
  obtain ⟨rest, hrest⟩ := List.takeWhile_prefix (l := text.toList) fun c => isUpper c || isLower c
  obtain ⟨tail, htail⟩ := List.takeWhile_prefix (l := rest) Text.isDecimal
  unfold idLike? at h
  simp only [drop_length_of_append hrest, drop_length_of_append htail, Option.ite_none_right_eq_some,
    Bool.and_eq_true, Bool.or_eq_true, beq_iff_eq, Bool.not_eq_true', Option.some.injEq,
    Prod.mk.injEq] at h
  obtain ⟨⟨⟨hlength, hsome⟩, hend⟩, rfl, rfl⟩ := h
  refine ⟨?_, ?_, ?_, ?_, ?_⟩
  · rw [String.toList_ofList]
    exact List.all_takeWhile
  · rwa [String.length_ofList]
  · intro hempty
    rw [← String.toList_eq_nil_iff, String.toList_ofList] at hempty
    rw [hempty] at hsome
    cases hsome
  · rw [String.toList_ofList]
    exact List.all_takeWhile
  · refine eq_of_isEnd ?_ hend
    rw [htail, hrest]

theorem upperChar_of_letter {c : Char} (h : (isUpper c || isLower c) = true) :
    Text.upperChar c = [c.toUpper] ∧ isCapital c.toUpper = true := by
  have hall : ∀ n < 123, (isUpper (Char.ofNat n) || isLower (Char.ofNat n)) = true →
      isCapital (Char.ofNat n).toUpper = true := by
    decide
  have hrange := toNat_of_letter h
  constructor
  · exact if_pos (by omega)
  · have hc := hall c.toNat (by omega)
    rw [Char.ofNat_toNat] at hc
    exact hc h

/-- Letters from A to Z become capitals one by one. -/
theorem toList_upper {letters : String}
    (h : letters.toList.all (fun c => isUpper c || isLower c) = true) :
    (Text.upper letters).toList = letters.toList.map Char.toUpper ∧
      (Text.upper letters).toList.all isCapital = true := by
  have hletter (c : Char) (hc : c ∈ letters.toList) := upperChar_of_letter (List.all_eq_true.mp h c hc)
  have hupper : (Text.upper letters).toList = letters.toList.map Char.toUpper := by
    rw [Text.upper, String.toList_ofList, List.map_eq_flatMap]
    exact List.flatMap_congr fun c hc => (hletter c hc).1
  refine ⟨hupper, ?_⟩
  rw [hupper, List.all_map, List.all_eq_true]
  exact fun c hc => (hletter c hc).2

end BusinessModel.PatternAdvice
