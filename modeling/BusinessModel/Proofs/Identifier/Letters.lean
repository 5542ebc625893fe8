import BusinessModel.Proofs.Identifier

/-!
Letters and digits of identifiers: what letters a text begins with, and what patterns of letters and
digits ask of a text, from its start to its end.
-/

namespace BusinessModel

namespace IdScheme

/-! ### Letters and digits -/

theorem isDecimal_of_isCapital {c : Char} (h : isCapital c = true) : Text.isDecimal c = false := by
  rw [isCapital, Bool.and_eq_true, decide_eq_true_eq, decide_eq_true_eq] at h
  have hlow : 65 ≤ c.toNat := h.1
  have hhigh : c.toNat ≤ 90 := h.2
  rw [Text.isDecimal, Text.digitValue?]
  rw [if_pos (by omega), if_neg (by omega), Option.isSome_none]

/-- A text is letters followed by enough decimal digits, and a line feed or nothing behind them. -/
def IsNumbered (letters : String) (least : Nat) (text : String) : Prop :=
  ∃ digits, least ≤ digits.length ∧ digits.all Text.isDecimal = true ∧
    (text.toList = letters.toList ++ digits ∨ text.toList = letters.toList ++ digits ++ ['\n'])

theorem takeWhile_append_of_all {p : Char → Bool} {front back : List Char} (hfront : front.all p = true)
    (hback : back.head?.all (!p ·) = true) :
    (front ++ back).takeWhile p = front ∧ (front ++ back).dropWhile p = back := by
  have hstop : back.takeWhile p = [] ∧ back.dropWhile p = back := by
    cases back with
    | nil => exact ⟨rfl, rfl⟩
    | cons c rest =>
      have hc : p c = false := by simpa using hback
      simp [hc]
  constructor
  · rw [List.takeWhile_append_of_pos (List.all_eq_true.mp hfront), hstop.1, List.append_nil]
  · rw [List.dropWhile_append_of_pos (List.all_eq_true.mp hfront), hstop.2]

/-- A run of letters stops at digits. -/
theorem head?_digits {p : Char → Bool} {digits tail : List Char}
    (hp : ∀ c, p c = true → Text.isDecimal c = false) (hne : digits ≠ [])
    (hdecimal : digits.all Text.isDecimal = true) : (digits ++ tail).head?.all (!p ·) = true := by
  obtain ⟨c, rest, rfl⟩ := List.exists_cons_of_ne_nil hne
  have hc : Text.isDecimal c = true := List.all_eq_true.mp hdecimal c List.mem_cons_self
  cases hcase : p c with
  | false => simp [hcase]
  | true => simp [hp c hcase] at hc

/-- A run of digits stops at the end of a line. -/
theorem head?_lineEnd {tail : List Char} (htail : tail = [] ∨ tail = ['\n']) :
    tail.head?.all (!Text.isDecimal ·) = true := by
  rcases htail with rfl | rfl
  · rfl
  · decide

/-- Capital letters, at least one, and decimal digits, at least one, are told apart, whether a line feed
follows or nothing. -/
theorem split?_append {letters digits tail : List Char} (hletters : letters ≠ [])
    (hcapital : letters.all isCapital = true) (hdigits : digits ≠ [])
    (hdecimal : digits.all Text.isDecimal = true) (htail : tail = [] ∨ tail = ['\n']) {text : String}
    (htext : text.toList = letters ++ (digits ++ tail)) :
    split? text = some (String.ofList letters, String.ofList digits) := by
  have hnumber : (digits ++ tail).head?.all (!isCapital ·) = true :=
    head?_digits (fun _ => isDecimal_of_isCapital) hdigits hdecimal
  obtain ⟨htaken, hrest⟩ := takeWhile_append_of_all hcapital hnumber
  obtain ⟨hnumeral, hleft⟩ := takeWhile_append_of_all hdecimal (head?_lineEnd htail)
  have hfeed : (tail.isEmpty || tail == ['\n']) = true := by
    rcases htail with rfl | rfl
    · rfl
    · rfl
  simp only [split?, htext, htaken, hrest, hnumeral, hleft, hfeed]
  simp [hletters, hdigits]

/-- A text can be split if and only if it is capital letters followed by decimal digits, and a line feed
or nothing behind them. -/
theorem split?_eq_some_iff {text letters digits : String} :
    split? text = some (letters, digits) ↔
      letters ≠ "" ∧ letters.toList.all isCapital = true ∧ digits ≠ "" ∧
        digits.toList.all Text.isDecimal = true ∧
        (text = letters ++ digits ∨ text = letters ++ digits ++ "\n") := by
  have hspelled (tail : String) : text = letters ++ digits ++ tail ↔
      text.toList = letters.toList ++ (digits.toList ++ tail.toList) := by
    rw [← String.toList_inj, String.toList_append, String.toList_append, List.append_assoc]
  constructor
  · intro h
    unfold split? at h
    dsimp only at h
    split at h
    · cases h
    · next hparts =>
      obtain ⟨rfl, rfl⟩ := Prod.mk.inj (Option.some.inj h)
      simp only [Bool.or_eq_true, not_or, List.isEmpty_iff, Bool.not_eq_true', Bool.not_eq_false,
        beq_iff_eq] at hparts
      obtain ⟨⟨hletters, hdigits⟩, htail⟩ := hparts
      have htext : text.toList = text.toList.takeWhile isCapital ++
          ((text.toList.dropWhile isCapital).takeWhile Text.isDecimal ++
            (text.toList.dropWhile isCapital).dropWhile Text.isDecimal) := by
        rw [List.takeWhile_append_dropWhile, List.takeWhile_append_dropWhile]
      refine ⟨by simpa using hletters, by simp, by simpa using hdigits, by simp, ?_⟩
      rcases htail with htail | htail
      · rw [htail] at htext
        exact .inl (by simpa using (hspelled "").mpr (by simpa using htext))
      · rw [htail] at htext
        exact .inr ((hspelled "\n").mpr (by simpa using htext))
  · rintro ⟨hletters, hcapital, hdigits, hdecimal, htext⟩
    have hne {s : String} (h : s ≠ "") : s.toList ≠ [] := fun hnil => h (String.toList_eq_nil_iff.mp hnil)
    have hsplit (tail : String) (htail : tail.toList = [] ∨ tail.toList = ['\n'])
        (htext : text = letters ++ digits ++ tail) : split? text = some (letters, digits) := by
      have := split?_append (hne hletters) hcapital (hne hdigits) hdecimal htail
        ((hspelled tail).mp htext)
      simpa using this
    rcases htext with htext | htext
    · exact hsplit "" (.inl rfl) (by simpa using htext)
    · exact hsplit "\n" (.inr rfl) htext

theorem split?_eq {letters text : String} {least : Nat} (hne : letters ≠ "")
    (hcapital : letters.toList.all isCapital = true) (hleast : 1 ≤ least)
    (h : IsNumbered letters least text) : ∃ digits, split? text = some (letters, digits) := by
  obtain ⟨digits, hlength, hdigits, htext⟩ := h
  have hletters : letters.toList ≠ [] := fun hnil => hne (String.toList_eq_nil_iff.mp hnil)
  have hsome : digits ≠ [] := by
    rintro rfl
    simp only [List.length_nil] at hlength
    omega
  have hsplit (tail : List Char) (htail : tail = [] ∨ tail = ['\n'])
      (htext : text.toList = letters.toList ++ (digits ++ tail)) :
      split? text = some (letters, String.ofList digits) := by
    simpa using split?_append hletters hcapital hsome hdigits htail htext
  rcases htext with htext | htext
  · exact ⟨_, hsplit [] (.inl rfl) (by simpa using htext)⟩
  · exact ⟨_, hsplit ['\n'] (.inr rfl) (by simpa using htext)⟩

theorem lookup_isSome_iff {kinds : List (String × String)} {letters : String} :
    (kinds.lookup letters).isSome = true ↔ letters ∈ kinds.map (·.1) := by
  induction kinds with
  | nil => simp
  | cons p kinds ih =>
    rw [List.lookup_cons, List.map_cons, List.mem_cons]
    by_cases h : letters = p.1
    · simp [h]
    · simp [h, ih, beq_eq_false_iff_ne.mpr h]

theorem letters?_eq_some_iff {s : IdScheme} {text letters : String} :
    s.letters? text = some letters ↔
      letters ∈ s.kinds.map (·.1) ∧ ∃ digits, split? text = some (letters, digits) := by
  rw [← lookup_isSome_iff, letters?]
  cases split? text with
  | none => simp
  | some parts =>
    obtain ⟨letters', digits'⟩ := parts
    simp only [Option.bind_some, Option.ite_none_right_eq_some, Option.some.injEq, Prod.mk.injEq]
    constructor
    · rintro ⟨hsome, rfl⟩
      exact ⟨hsome, digits', rfl, rfl⟩
    · rintro ⟨hsome, digits, rfl, -⟩
      exact ⟨hsome, rfl⟩

/-- A text that begins with letters in use has these letters. -/
theorem HasWords.letters?_eq {s : IdScheme} (hwords : s.HasWords) {kind : String × String}
    (hkind : kind ∈ s.kinds) {least : Nat} (hleast : 1 ≤ least) {text : String}
    (h : IsNumbered kind.1 least text) : s.letters? text = some kind.1 :=
  letters?_eq_some_iff.mpr ⟨List.mem_map_of_mem hkind,
    split?_eq (hwords.nonempty kind hkind) (hwords.capital kind hkind) hleast h⟩

/-! ### Patterns of letters and digits -/

section Run

variable {before rest : List Char} {groups : List (Nat × List Char)} {k : Pattern.Continuation}

/-- The pattern of characters that stand for themselves, and of what comes behind them. -/
def prefixed (behind : Pattern) : List Char → Pattern
  | [] => behind
  | c :: cs => .seq (.char (.exactly c)) (prefixed behind cs)

theorem run_prefixed {behind : Pattern} {cs : List Char} :
    ((prefixed behind cs).run ⟨before, rest, groups⟩ k).isSome ↔
      ∃ more, rest = cs ++ more ∧ (behind.run ⟨cs.reverse ++ before, more, groups⟩ k).isSome := by
  induction cs generalizing before rest with
  | nil => simp [prefixed]
  | cons c cs ih =>
    cases rest with
    | nil => simp [prefixed]
    | cons d rest =>
      by_cases hd : d = c
      · subst hd
        simp [prefixed, ih]
      · simp [prefixed, hd]

/-- The pattern of a word of characters that stand for themselves. -/
def spelled : List Char → Pattern
  | [] => .empty
  | [c] => .char (.exactly c)
  | c :: cs => .seq (.char (.exactly c)) (spelled cs)

theorem run_spelled {cs : List Char} :
    ((spelled cs).run ⟨before, rest, groups⟩ k).isSome ↔
      ∃ more, rest = cs ++ more ∧ (k ⟨cs.reverse ++ before, more, groups⟩).isSome := by
  fun_induction spelled cs generalizing before rest with
  | case1 => simp
  | case2 c =>
    cases rest with
    | nil => simp
    | cons d rest =>
      by_cases hd : d = c
      · subst hd
        simp
      · simp [hd]
  | case3 c cs hne ih =>
    cases rest with
    | nil => simp
    | cons d rest =>
      by_cases hd : d = c
      · subst hd
        simp [ih]
      · simp [hd]

/-- The pattern of one of several words. -/
def oneSpelled : List String → Pattern
  | [] => .empty
  | [word] => spelled word.toList
  | word :: rest => .alt (spelled word.toList) (oneSpelled rest)

/-- One of several words is matched, whichever lets the rest match. -/
theorem run_oneSpelled {words : List String} (hwords : words ≠ []) :
    ((oneSpelled words).run ⟨before, rest, groups⟩ k).isSome ↔
      ∃ w ∈ words, ∃ more, rest = w.toList ++ more ∧
        (k ⟨w.toList.reverse ++ before, more, groups⟩).isSome := by
  induction words with
  | nil => exact absurd rfl hwords
  | cons w words ih =>
    cases words with
    | nil => simp [oneSpelled, run_spelled]
    | cons w' words =>
      rw [oneSpelled, Pattern.run_alt, isSome_orElse_iff, run_spelled, ih (List.cons_ne_nil w' words)]
      · simp only [List.mem_cons, exists_eq_or_imp]
      · simp

/-- The pattern of enough digits, up to the end. -/
def digitsToEnd (least : Nat) : Pattern :=
  .seq (.repeated .greedy least none (.char (.digit false))) (.anchor .textEnd)

theorem isNumbered_iff_run {letters text : String} {least : Nat} {spot : List Char → Spot}
    (hspot : ∀ more, (spot more).rest = more) :
    IsNumbered letters least text ↔ ∃ more, text.toList = letters.toList ++ more ∧
      ((digitsToEnd least).run (spot more) some).isSome = true := by
  have hrun (more : List Char) : ((digitsToEnd least).run (spot more) some).isSome = true ↔
      ∃ digits, least ≤ digits.length ∧ digits.all Text.isDecimal = true ∧
        (more = digits ∨ more = digits ++ ['\n']) := by
    refine run_digits_textEnd.trans ?_
    rw [hspot]
  simp only [hrun]
  constructor
  · rintro ⟨digits, hlength, hdigits, htext⟩
    rcases htext with htext | htext
    · exact ⟨digits, htext, digits, hlength, hdigits, .inl rfl⟩
    · exact ⟨digits ++ ['\n'], by rw [htext, List.append_assoc], digits, hlength, hdigits, .inr rfl⟩
  · rintro ⟨more, htext, digits, hlength, hdigits, hmore⟩
    refine ⟨digits, hlength, hdigits, ?_⟩
    rw [htext, List.append_assoc]
    exact hmore.imp (congrArg _) (congrArg _)

/-- Letters and digits up to the end are matched by the texts that consist of them. -/
theorem run_prefixed_digitsToEnd {letters text : String} {least : Nat} :
    ((prefixed (digitsToEnd least) letters.toList).run ⟨before, text.toList, groups⟩ some).isSome ↔
      IsNumbered letters least text :=
  run_prefixed.trans (isNumbered_iff_run fun _ => rfl).symm

theorem run_oneSpelled_digitsToEnd {words : List String} (hwords : words ≠ []) {text : String}
    {least n : Nat} :
    ((Pattern.seq (.group n (oneSpelled words)) (digitsToEnd least)).run
      ⟨before, text.toList, groups⟩ some).isSome ↔ ∃ w ∈ words, IsNumbered w least text := by
  refine (run_oneSpelled hwords).trans (exists_congr fun w => and_congr_right fun _ => ?_)
  exact (isNumbered_iff_run fun _ => rfl).symm

end Run

end IdScheme

end BusinessModel
