import BusinessModel.Pattern.Parse
import BusinessModel.Proofs.Identifier.Letters
import BusinessModel.Proofs.Text.Numeral

/-!
How patterns of identifiers are read from their texts: letters or a choice between several, then digits
with their least number, from the start of a text to its end. There is one lemma for each character that
such a text may go on with, and the parts of the text follow by induction.
-/

namespace BusinessModel.Pattern

open IdScheme

/-- The source with other characters left, when a pattern has begun. -/
def Source.at (s : Source) (cs : List Char) : Source := { s with rest := cs, start := false }

/-- The part of a character that stands for itself. -/
def Part.ofChar (c : Char) : Part := .plain (.char (.exactly c))

namespace Reader

variable {fuel : Nat} {parts : List Part} {s : Source} {c : Char} {cs : List Char}

theorem bind_eq {α β : Type} {x : Reader α} {f : α → Reader β} {a : α} {t : Source}
    (h : x s = some (a, t)) : (x >>= f) s = f a t := by
  change (x s).bind _ = _
  rw [h]
  rfl

/-! ### Single characters -/

theorem sequence_nil : sequence (fuel + 1) {} parts (s.at []) = some (join parts, s.at []) := rfl

theorem sequence_stop (hc : c = '|' ∨ c = ')') :
    sequence (fuel + 1) {} parts (s.at (c :: cs)) = some (join parts, s.at (c :: cs)) := by
  rcases hc with rfl | rfl
  · rfl
  · rfl

theorem sequence_textStart : sequence (fuel + 1) {} parts { s with rest := '^' :: cs } =
    sequence fuel {} (.condition (.anchor .textStart) :: parts) (s.at cs) := rfl

theorem sequence_textEnd : sequence (fuel + 1) {} parts (s.at ('$' :: cs)) =
    sequence fuel {} (.condition (.anchor .textEnd) :: parts) (s.at cs) := rfl

theorem sequence_digit : sequence (fuel + 1) {} parts (s.at ('\\' :: 'd' :: cs)) =
    sequence fuel {} (.plain (.char (.digit false)) :: parts) (s.at cs) := rfl

theorem sequence_group : sequence (fuel + 1) {} parts (s.at ('(' :: cs)) =
    group fuel {} parts (s.at cs) := rfl

theorem ne_of_isPlainChar (hc : isPlainChar c = true) {d : Char}
    (hd : d ∈ ['.', '^', '$', '*', '+', '?', '\x7b', '[', '\\', '|', '(', ')']) : (c == d) = false := by
  have hspecial : ".^$*+?\x7b[\\|()".toList =
      ['.', '^', '$', '*', '+', '?', '\x7b', '[', '\\', '|', '(', ')'] := rfl
  rw [beq_eq_false_iff_ne]
  rintro rfl
  rw [isPlainChar, hspecial, List.contains_iff_mem.mpr hd] at hc
  cases hc

theorem sequence_plain (hc : isPlainChar c = true) : sequence (fuel + 1) {} parts (s.at (c :: cs)) =
    sequence fuel {} (.ofChar c :: parts) (s.at cs) := by
  have hne := fun d => @ne_of_isPlainChar c hc d
  simp only [List.mem_cons, List.not_mem_nil, or_false, forall_eq_or_imp, forall_eq] at hne
  obtain ⟨hdot, hstart, hend, hstar, hplus, hmark, hbrace, hbracket, hback, hbar, hopen, hclose⟩ := hne
  rw [sequence]
  refine (bind_eq (a := some c) (t := s.at (c :: cs)) rfl).trans ?_
  simp only [hbar, hclose, Bool.or_self, Bool.false_eq_true, if_false]
  refine (bind_eq (a := c) (t := s.at cs) rfl).trans ?_
  simp only [hstar, hplus, hmark, hbrace, hopen, hback, hbracket, hdot, hstart, hend, Bool.or_self,
    Bool.false_and, Bool.false_eq_true, if_false]
  rfl

/-! ### Repetitions -/

theorem hexValue?_of_isDigit (hc : c.isDigit = true) : Text.hexValue? c = some (c.toNat - 48) := by
  have hrange : '0' ≤ c ∧ c ≤ '9' := by
    simpa [Char.isDigit, Char.le_def] using hc
  rw [Text.hexValue?]
  rw [if_pos hrange]

theorem number_ten {digits : List Char} (h : digits.all Char.isDigit = true) :
    number 10 digits = Nat.ofDigitChars 10 digits 0 := by
  rw [number, Nat.ofDigitChars_eq_foldl]
  refine List.foldl_ext _ _ _ fun n c hc => ?_
  rw [hexValue?_of_isDigit (List.all_eq_true.mp h c hc)]
  rfl

theorem bounds_leastOnly {digits : List Char} (hne : digits ≠ []) (h : digits.all Char.isDigit = true) :
    bounds (s.at (digits ++ ',' :: '\x7d' :: cs)) =
      some (some (Nat.ofDigitChars 10 digits 0, none), s.at cs) := by
  have htaken : (digits ++ ',' :: '\x7d' :: cs).takeWhile Char.isDigit = digits :=
    (takeWhile_append_of_all h rfl).1
  have hhead : ((digits ++ ',' :: '\x7d' :: cs).head? == some '\x7d') = false := by
    obtain ⟨c, rest, rfl⟩ := List.exists_cons_of_ne_nil hne
    rw [List.cons_append, List.head?_cons, beq_eq_false_iff_ne]
    rintro heq
    cases Option.some.inj heq
    simp at h
  have hdigits : takeWhile Char.isDigit (s.at (digits ++ ',' :: '\x7d' :: cs)) =
      some (digits, s.at (',' :: '\x7d' :: cs)) := by
    change some (List.takeWhile _ _, s.at (List.drop (List.takeWhile _ _).length _)) = _
    rw [Source.at, htaken, List.drop_left]
  rw [bounds]
  refine (bind_eq (a := s.at _) (t := s.at _) rfl).trans ?_
  refine (bind_eq (a := (digits ++ ',' :: '\x7d' :: cs).head?) (t := s.at _) rfl).trans ?_
  rw [hhead, if_neg Bool.false_ne_true]
  refine (bind_eq hdigits).trans ?_
  refine (bind_eq (a := true) (t := s.at ('\x7d' :: cs)) rfl).trans ?_
  refine (bind_eq (a := []) (t := s.at ('\x7d' :: cs)) rfl).trans ?_
  refine (bind_eq (a := true) (t := s.at cs) rfl).trans ?_
  rw [number_ten h]
  rfl

theorem sequence_leastOnly {digits : List Char} (hne : digits ≠ [])
    (h : digits.all Char.isDigit = true) (p : Pattern) :
    sequence (fuel + 1) {} (.plain p :: parts) (s.at ('\x7b' :: (digits ++ ',' :: '\x7d' :: '$' :: cs))) =
      sequence fuel {}
        (.repetition (.repeated .greedy (Nat.ofDigitChars 10 digits 0) none p) :: parts)
        (s.at ('$' :: cs)) := by
  rw [sequence]
  refine (bind_eq (a := some '\x7b') rfl).trans ?_
  refine (bind_eq (a := '\x7b') (t := s.at _) rfl).trans ?_
  exact bind_eq (bounds_leastOnly hne h)

/-! ### Words -/

theorem sequence_word {word : List Char} (h : word.all isPlainChar = true) :
    sequence (word.length + fuel) {} parts (s.at (word ++ cs)) =
      sequence fuel {} ((word.map Part.ofChar).reverse ++ parts) (s.at cs) := by
  induction word generalizing parts with
  | nil => simp
  | cons c word ih =>
    rw [List.all_cons, Bool.and_eq_true] at h
    rw [List.length_cons, Nat.add_right_comm, List.cons_append, sequence_plain h.1, ih h.2]
    simp

theorem join_cons (last : Part) (front : List Part) :
    join (last :: front) = front.foldl (fun acc q => .seq q.pattern acc) last.pattern := by
  unfold join
  split
  · next h => simp at h
  · next h =>
    rw [← h, List.reverse_reverse]

theorem join_concat {p : Part} (hne : parts ≠ []) :
    join (parts ++ [p]) = .seq p.pattern (join parts) := by
  obtain ⟨last, front, rfl⟩ := List.exists_cons_of_ne_nil hne
  rw [List.cons_append, join_cons, join_cons, List.foldl_append, List.foldl_cons, List.foldl_nil]

theorem join_spelled (word : List Char) : join (word.map Part.ofChar).reverse = spelled word := by
  fun_induction spelled word with
  | case1 => rfl
  | case2 c => rfl
  | case3 c word hne ih =>
    rw [List.map_cons, List.reverse_cons, join_concat (by simpa using hne), ih]
    rfl

theorem join_prefixed (hne : parts ≠ []) (word : List Char) :
    join (parts ++ (word.map Part.ofChar).reverse) = prefixed (join parts) word := by
  induction word with
  | nil => simp [prefixed]
  | cons c word ih =>
    rw [List.map_cons, List.reverse_cons, ← List.append_assoc, join_concat (by simp [hne]), ih]
    rfl

/-- A word up to a bar or a closing parenthesis. -/
theorem sequence_word_stop {word : List Char} (h : word.all isPlainChar = true)
    (hc : c = '|' ∨ c = ')') (hfuel : word.length < fuel) :
    sequence fuel {} [] (s.at (word ++ c :: cs)) = some (spelled word, s.at (c :: cs)) := by
  obtain ⟨more, rfl⟩ := Nat.exists_eq_add_of_lt hfuel
  rw [Nat.add_assoc, sequence_word h, sequence_stop hc, List.append_nil, join_spelled]

/-- A choice between words up to the parenthesis behind it. -/
theorem alternatives_choice {words : List String} (hne : words ≠ [])
    (h : ∀ w ∈ words, w.toList.all isPlainChar = true)
    (hfuel : ("|".intercalate words).length + 1 < fuel) :
    alternatives fuel {} (s.at (("|".intercalate words).toList ++ ')' :: cs)) =
      some (oneSpelled words, s.at (')' :: cs)) := by
  induction words generalizing fuel with
  | nil => exact absurd rfl hne
  | cons w words ih =>
    obtain ⟨fuel, rfl⟩ := Nat.exists_eq_succ_of_ne_zero (Nat.ne_zero_of_lt hfuel)
    cases words with
    | nil =>
      rw [String.intercalate_singleton] at hfuel ⊢
      rw [alternatives]
      refine (bind_eq (sequence_word_stop (h w List.mem_cons_self) (.inr rfl) ?_)).trans rfl
      rw [String.length_toList]
      omega
    | cons w' words =>
      have hlength : ("|".intercalate (w :: w' :: words)).length =
          w.length + 1 + ("|".intercalate (w' :: words)).length := by
        rw [String.intercalate_cons_cons, String.length_append, String.length_append]
        rfl
      have htext : ("|".intercalate (w :: w' :: words)).toList ++ ')' :: cs =
          w.toList ++ '|' :: (("|".intercalate (w' :: words)).toList ++ ')' :: cs) := by
        simp [String.intercalate_cons_cons]
      rw [htext, alternatives]
      refine (bind_eq (sequence_word_stop (h w List.mem_cons_self) (.inl rfl) ?_)).trans ?_
      · rw [String.length_toList]
        omega
      · refine (bind_eq (t := s.at _) rfl).trans ?_
        refine (bind_eq (t := s.at _) rfl).trans ?_
        exact bind_eq (ih (List.cons_ne_nil w' words)
          (fun v hv => h v (List.mem_cons_of_mem w hv)) (by omega))

theorem takes_of_ne (h : (cs.head? == some c) = false) : takes c (s.at cs) = some (false, s.at cs) := by
  refine (bind_eq (a := cs.head?) (t := s.at cs) rfl).trans ?_
  rw [h]
  rfl

/-- A group without a mark behind its parenthesis has a number, and the alternatives up to the other
parenthesis. -/
theorem group_numbered (hmark : (cs.head? == some '?') = false) :
    group (fuel + 1) {} parts (s.at cs) = (do
      let n ← openGroup none
      let p ← alternatives fuel {}
      demand ')'
      closeGroup n p
      sequence fuel {} (.plain (.group n p) :: parts) : Reader Pattern) (s.at cs) := by
  rw [group]
  refine (bind_eq (a := s.at cs) (t := s.at cs) rfl).trans ?_
  refine (bind_eq (a := ()) (t := s.at cs) rfl).trans ?_
  exact bind_eq (takes_of_ne hmark)

/-- A choice does not go on with a mark, since its words have none. -/
theorem head?_choice {words : List String} (h : ∀ w ∈ words, w.toList.all isPlainChar = true) :
    ((("|".intercalate words).toList ++ ')' :: cs).head? == some '?') = false := by
  have hword {w : String} (hw : w.toList.all isPlainChar = true) {d : Char} (hd : d ≠ '?')
      (rest : List Char) : ((w.toList ++ d :: rest).head? == some '?') = false := by
    cases hcs : w.toList with
    | nil => simpa using hd
    | cons c front =>
      rw [hcs, List.all_cons, Bool.and_eq_true] at hw
      simpa using ne_of_isPlainChar hw.1 (d := '?') (by decide)
  cases words with
  | nil => rfl
  | cons w words =>
    cases words with
    | nil =>
      rw [String.intercalate_singleton]
      exact hword (h w List.mem_cons_self) (by decide) cs
    | cons w' words =>
      have hbar : "|".toList = ['|'] := rfl
      rw [String.intercalate_cons_cons, String.toList_append, String.toList_append, hbar,
        List.append_assoc, List.append_assoc, List.singleton_append]
      exact hword (h w List.mem_cons_self) (by decide) _

/-- A group of a choice between words. -/
theorem group_choice {words : List String} (hne : words ≠ [])
    (h : ∀ w ∈ words, w.toList.all isPlainChar = true)
    (hfuel : ("|".intercalate words).length + 1 < fuel) :
    ∃ s' : Source, s'.groups = s.groups + 1 ∧ s'.highest = s.highest ∧ s'.flags = s.flags ∧
      group (fuel + 1) {} parts (s.at (("|".intercalate words).toList ++ ')' :: cs)) =
        sequence fuel {} (.plain (.group (s.groups + 1) (oneSpelled words)) :: parts) (s'.at cs) := by
  let opened : Source := { s with groups := s.groups + 1, opened := (s.groups + 1) :: s.opened }
  refine ⟨{ opened with
    opened := opened.opened.filter (· != s.groups + 1)
    widths := (s.groups + 1, (oneSpelled words).width? fun n => (s.widths.lookup n).join) :: s.widths },
    rfl, rfl, rfl, ?_⟩
  rw [group_numbered (head?_choice h)]
  refine (bind_eq (a := s.groups + 1) (t := opened.at _) rfl).trans ?_
  refine (bind_eq (alternatives_choice hne h hfuel)).trans ?_
  refine (bind_eq (a := ()) (t := opened.at cs) rfl).trans ?_
  exact bind_eq (a := ()) rfl

/-- The digits of an identifier, with their least number, up to the end of a text. -/
theorem sequence_digitsToEnd (n : Nat) :
    sequence (fuel + 4) {} parts
        (s.at ('\\' :: 'd' :: '\x7b' :: (Nat.toDigits 10 n ++ [',', '\x7d', '$']))) =
      some (join (.condition (.anchor .textEnd) ::
        .repetition (.repeated .greedy n none (.char (.digit false))) :: parts), s.at []) := by
  rw [sequence_digit, sequence_leastOnly Nat.toDigits_ne_nil (Text.all_isDigit_toDigits n),
    Nat.ofDigitChars_ten_toDigits, sequence_textEnd, sequence_nil]

end Reader

/-! ### Whole patterns -/

/-- A text that is one sequence of parts without settings is read as their pattern. -/
theorem parse?_of_sequence {text : String} {p : Pattern} {s : Source}
    (h : Reader.sequence (4 * text.toList.length + 7) {} [] { rest := text.toList } =
      some (p, s.at []))
    (hhighest : s.highest ≤ s.groups) (hflags : s.flags = {}) : parse? text = some p := by
  have halternatives : Reader.alternatives (4 * text.toList.length + 8) {} { rest := text.toList } =
      some (p, s.at []) := by
    rw [Reader.alternatives]
    exact (Reader.bind_eq h).trans (Reader.bind_eq (Reader.takes_of_ne rfl))
  have hparse : parseWith {} text = some (p, s.at []) := by
    change (Reader.alternatives (4 * text.toList.length + 8) {} { rest := text.toList }).bind _ = _
    rw [halternatives]
    exact if_pos (by simp [Source.at, hhighest])
  change (parseWith {} text).bind _ = _
  rw [hparse]
  exact if_pos (by simp [Source.at, hflags])

/-- Letters and digits behind them, as the whole of a text. -/
theorem parse?_prefixed {word : String} (h : word.toList.all isPlainChar = true) (n : Nat) :
    parse? ("^" ++ word ++ "\\d\x7b" ++ Text.natText n ++ ",\x7d$") =
      some (.seq (.anchor .textStart) (prefixed (digitsToEnd n) word.toList)) := by
  have htext : ("^" ++ word ++ "\\d\x7b" ++ Text.natText n ++ ",\x7d$").toList = '^' :: (word.toList ++
      '\\' :: 'd' :: '\x7b' :: (Nat.toDigits 10 n ++ [',', '\x7d', '$'])) := by
    simp [Text.natText]
  refine parse?_of_sequence (s := { rest := [] }) ?_ (Nat.le_refl 0) rfl
  have hfuel : 4 * ("^" ++ word ++ "\\d\x7b" ++ Text.natText n ++ ",\x7d$").toList.length + 7 =
      word.toList.length + (3 * word.toList.length + 4 * (Nat.toDigits 10 n).length + 30 + 4) + 1 := by
    simp only [htext, List.length_cons, List.length_append, List.length_nil]
    omega
  rw [hfuel, htext]
  refine (Reader.sequence_textStart (s := { rest := [] })).trans ?_
  have hjoin : Reader.join ([.condition (.anchor .textEnd),
      .repetition (.repeated .greedy n none (.char (.digit false)))] ++
        (word.toList.map Part.ofChar).reverse) = prefixed (digitsToEnd n) word.toList :=
    Reader.join_prefixed (List.cons_ne_nil _ _) word.toList
  rw [Reader.sequence_word h, Reader.sequence_digitsToEnd, ← List.cons_append, ← List.cons_append,
    Reader.join_concat (List.cons_ne_nil _ _)]
  exact congrArg (fun p => some (Pattern.seq (.anchor .textStart) p, _)) hjoin

/-- A choice between letters and digits behind it, as the whole of a text. -/
theorem parse?_choice {words : List String} (hne : words ≠ [])
    (h : ∀ w ∈ words, w.toList.all isPlainChar = true) (n : Nat) :
    parse? ("^(" ++ "|".intercalate words ++ ")\\d\x7b" ++ Text.natText n ++ ",\x7d$") =
      some (.seq (.anchor .textStart) (.seq (.group 1 (oneSpelled words)) (digitsToEnd n))) := by
  have htext : ("^(" ++ "|".intercalate words ++ ")\\d\x7b" ++ Text.natText n ++ ",\x7d$").toList =
      '^' :: '(' :: (("|".intercalate words).toList ++
        ')' :: '\\' :: 'd' :: '\x7b' :: (Nat.toDigits 10 n ++ [',', '\x7d', '$'])) := by
    simp [Text.natText]
  have hfuel : 4 * ("^(" ++ "|".intercalate words ++ ")\\d\x7b" ++ Text.natText n ++
      ",\x7d$").toList.length + 7 = 4 * ("|".intercalate words).length +
        4 * (Nat.toDigits 10 n).length + 36 + 4 + 1 + 1 + 1 := by
    simp only [htext, List.length_cons, List.length_append, List.length_nil, String.length_toList]
    omega
  have hwords : ("|".intercalate words).length + 1 <
      4 * ("|".intercalate words).length + 4 * (Nat.toDigits 10 n).length + 36 + 4 := by
    omega
  obtain ⟨s, -, hhighest, hflags, hgroup⟩ := Reader.group_choice (s := { rest := [] }) hne h hwords
  refine parse?_of_sequence (s := s) ?_ (hhighest ▸ Nat.zero_le _) hflags
  rw [hfuel, htext]
  refine (Reader.sequence_textStart (s := { rest := [] })).trans (Reader.sequence_group.trans ?_)
  rw [hgroup, Reader.sequence_digitsToEnd]
  rfl

/-! ### Patterns of identifiers -/

/-- The text of a pattern of identifiers: two or three capital letters, or a choice between such, and
digits behind them, with their least number. -/
structure IsIdText (words : List String) (n : Nat) (text : String) : Prop where
  inUse : words ≠ []
  capital : ∀ w ∈ words, w.toList.all isCapital = true
  length : ∀ w ∈ words, w.length = 2 ∨ w.length = 3
  least : 1 ≤ n
  spelled : (∃ word, words = [word] ∧ text = "^" ++ word ++ "\\d\x7b" ++ Text.natText n ++ ",\x7d$") ∨
    text = "^(" ++ "|".intercalate words ++ ")\\d\x7b" ++ Text.natText n ++ ",\x7d$"

/-- The pattern of identifiers with some letters and enough digits matches these. -/
theorem IsIdText.exists_parse {words : List String} {n : Nat} {text : String}
    (h : IsIdText words n text) : ∃ p, parse? text = some p ∧
      ∀ v, p.search v = true ↔ ∃ w ∈ words, IsNumbered w n v := by
  have hplain : ∀ w ∈ words, w.toList.all isPlainChar = true := fun w hw =>
    List.all_eq_true.mpr fun c hc =>
      isPlainChar_of_isCapital (List.all_eq_true.mp (h.capital w hw) c hc)
  rcases h.spelled with ⟨word, rfl, rfl⟩ | rfl
  · refine ⟨_, parse?_prefixed (hplain word List.mem_cons_self) n, fun v => ?_⟩
    rw [search_textStart]
    refine run_prefixed_digitsToEnd.trans ?_
    simp
  · refine ⟨_, parse?_choice h.inUse hplain n, fun v => ?_⟩
    rw [search_textStart]
    exact run_oneSpelled_digitsToEnd h.inUse

end BusinessModel.Pattern
