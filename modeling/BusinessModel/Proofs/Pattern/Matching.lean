import BusinessModel.Pattern

/-!
What patterns match. A pattern hands the place behind its match to what remains to be matched, so the
lemmas say of each kind of pattern at which places the rest is tried, and that one success is enough.
-/

namespace BusinessModel

theorem isSome_orElse_iff {α : Type} (x : Option α) (f : Unit → Option α) :
    (x.orElse f).isSome ↔ x.isSome ∨ (f ()).isSome := by
  cases x <;> simp

@[simp] theorem CharTest.accepts_exactly (c d : Char) : (exactly d).accepts c = (c == d) := rfl

@[simp] theorem CharTest.accepts_digit (c : Char) : (digit false).accepts c = Text.isDecimal c := rfl

@[simp] theorem Spot.satisfies_textStart (s : Spot) : s.satisfies .textStart = s.before.isEmpty := rfl

@[simp] theorem Spot.satisfies_textEnd (s : Spot) :
    s.satisfies .textEnd = (s.rest.isEmpty || s.rest == ['\n']) := rfl

namespace Pattern

variable {before rest : List Char} {groups : List (Nat × List Char)} {k : Continuation}

@[simp] theorem run_empty (s : Spot) : empty.run s k = k s := rfl

@[simp] theorem run_char_nil (t : CharTest) : (char t).run ⟨before, [], groups⟩ k = none := rfl

@[simp] theorem run_char_cons (t : CharTest) (c : Char) :
    (char t).run ⟨before, c :: rest, groups⟩ k =
      if t.accepts c then k ⟨c :: before, rest, groups⟩ else none := rfl

@[simp] theorem run_seq (a b : Pattern) (s : Spot) :
    (seq a b).run s k = a.run s fun s' => b.run s' k := rfl

@[simp] theorem run_alt (a b : Pattern) (s : Spot) :
    (alt a b).run s k = (a.run s k).orElse fun _ => b.run s k := rfl

@[simp] theorem run_group (n : Nat) (p : Pattern) (s : Spot) :
    (group n p).run s k = p.run s fun s' => k { s' with groups := (n, s'.since s) :: s'.groups } := rfl

@[simp] theorem run_anchor (a : Anchor) (s : Spot) :
    (anchor a).run s k = if s.satisfies a then k s else none := rfl

theorem run_repeated (least : Nat) (most : Option Nat) (p : Pattern) (s : Spot) :
    (repeated .greedy least most p).run s k =
      repeatStep p.run true (least + s.rest.length + 1) least most s k := rfl

/-! ### Repetitions -/

section Many

variable {t : CharTest} {least : Nat}

/-- Characters come next that pass the test, enough of them, behind which the rest matches. -/
def ManyNext (t : CharTest) (least : Nat) (before rest : List Char) (groups : List (Nat × List Char))
    (k : Continuation) : Prop :=
  ∃ taken more, rest = taken ++ more ∧ least ≤ taken.length ∧ taken.all t.accepts = true ∧
    (k ⟨taken.reverse ++ before, more, groups⟩).isSome

theorem manyNext_succ : ManyNext t (least + 1) before rest groups k ↔
    ∃ c more, rest = c :: more ∧ t.accepts c = true ∧
      ManyNext t least (c :: before) more groups k := by
  constructor
  · rintro ⟨taken, more, rfl, hlength, htaken, hrest⟩
    cases taken with
    | nil => simp at hlength
    | cons c taken =>
      rw [List.all_cons, Bool.and_eq_true] at htaken
      exact ⟨c, taken ++ more, rfl, htaken.1, taken, more, rfl, by simpa using hlength, htaken.2,
        by simpa using hrest⟩
  · rintro ⟨c, _, rfl, hc, taken, more, rfl, hlength, htaken, hrest⟩
    exact ⟨c :: taken, more, rfl, by simpa using hlength, by simp [hc, htaken], by simpa using hrest⟩

theorem manyNext_zero : ManyNext t 0 before rest groups k ↔
    ManyNext t 1 before rest groups k ∨ (k ⟨before, rest, groups⟩).isSome := by
  constructor
  · rintro ⟨taken, more, rfl, -, htaken, hrest⟩
    cases taken with
    | nil => exact .inr hrest
    | cons c taken => exact .inl ⟨c :: taken, more, rfl, by simp, htaken, hrest⟩
  · rintro (⟨taken, more, rfl, -, htaken, hrest⟩ | hrest)
    · exact ⟨taken, more, rfl, Nat.zero_le _, htaken, hrest⟩
    · exact ⟨[], rest, rfl, Nat.zero_le _, rfl, hrest⟩

theorem run_char_iff : ((char t).run ⟨before, rest, groups⟩ k).isSome ↔
    ∃ c more, rest = c :: more ∧ t.accepts c = true ∧ (k ⟨c :: before, more, groups⟩).isSome := by
  cases rest with
  | nil => simp
  | cons c rest =>
    by_cases hc : t.accepts c = true
    · simp [and_assoc, hc]
    · simp [and_assoc, hc]

/-- A greedy repetition of a test matches the characters that let the rest match, if there are enough.
The fuel never runs out, since each repetition takes a character. -/
theorem repeatStep_char_iff {fuel : Nat} (hfuel : least + rest.length < fuel) :
    (repeatStep (char t).run true fuel least none ⟨before, rest, groups⟩ k).isSome ↔
      ManyNext t least before rest groups k := by
  induction fuel generalizing least before rest with
  | zero => omega
  | succ fuel ih =>
    have hnext {least : Nat} (hfuel : least + rest.length < fuel + 1) (next : Continuation)
        (hsame : ∀ c more, rest = c :: more → next ⟨c :: before, more, groups⟩ =
          repeatStep (char t).run true fuel least none ⟨c :: before, more, groups⟩ k) :
        ((char t).run ⟨before, rest, groups⟩ next).isSome ↔
          ManyNext t (least + 1) before rest groups k := by
      rw [run_char_iff, manyNext_succ]
      refine exists_congr fun c => exists_congr fun more => and_congr_right fun hrest => ?_
      rw [hsame c more hrest, ih (by rw [hrest, List.length_cons] at hfuel; omega)]
    cases least with
    | succ least =>
      rw [repeatStep]
      exact hnext (by omega) _ fun c more _ => rfl
    | zero =>
      rw [repeatStep, manyNext_zero]
      simp only [reduceCtorEq, beq_iff_eq, if_false, if_true, Option.map_none]
      rw [isSome_orElse_iff]
      refine or_congr (hnext hfuel _ fun c more hrest => ?_) Iff.rfl
      simp [hrest]

theorem run_many_iff : ((repeated .greedy least none (char t)).run ⟨before, rest, groups⟩ k).isSome ↔
    ManyNext t least before rest groups k := by
  rw [run_repeated]
  exact repeatStep_char_iff (Nat.lt_succ_self _)

/-- A repetition up to the end of the text takes all that is left, except for a line feed that ends the
text. -/
theorem run_many_textEnd_iff :
    ((seq (repeated .greedy least none (char t)) (anchor .textEnd)).run ⟨before, rest, groups⟩
      some).isSome ↔
      ∃ taken, least ≤ taken.length ∧ taken.all t.accepts = true ∧
        (rest = taken ∨ rest = taken ++ ['\n']) := by
  have hend (s : Spot) : ((anchor .textEnd).run s some).isSome ↔ s.rest = [] ∨ s.rest = ['\n'] := by
    simp
  rw [run_seq, run_many_iff]
  constructor
  · rintro ⟨taken, more, rfl, hlength, htaken, hmore⟩
    rw [hend] at hmore
    refine ⟨taken, hlength, htaken, ?_⟩
    rcases hmore with hmore | hmore
    · exact .inl (by simpa using hmore)
    · exact .inr (by simpa using hmore)
  · rintro ⟨taken, hlength, htaken, rfl | rfl⟩
    · exact ⟨rest, [], by simp, hlength, htaken, (hend _).mpr (.inl rfl)⟩
    · exact ⟨taken, ['\n'], rfl, hlength, htaken, (hend _).mpr (.inr rfl)⟩

end Many

/-- A pattern that may be missing is matched, with something in it, or left out. -/
theorem run_optional_iff {p : Pattern} {s : Spot} :
    ((repeated .greedy 0 (some 1) p).run s k).isSome ↔
      (p.run s fun s' => if s'.rest.length == s.rest.length then none else k s').isSome ∨
        (k s).isSome := by
  have hlast (s' : Spot) (fuel : Nat) : repeatStep p.run true fuel 0 (some 0) s' k = k s' := by
    cases fuel with
    | zero => rfl
    | succ fuel => rfl
  rw [run_repeated, repeatStep]
  simp only [Option.map_some, Nat.sub_self, hlast]
  exact isSome_orElse_iff _ _

/-! ### Searching -/

theorem searchFrom_textStart {p : Pattern} (h : before ≠ []) :
    ((seq (anchor .textStart) p).searchFrom before rest).isSome = false := by
  have hnone (before rest : List Char) (h : before ≠ []) :
      (seq (anchor .textStart) p).run ⟨before, rest, []⟩ some = none := by
    simp [h]
  induction rest generalizing before with
  | nil => rw [searchFrom, hnone _ _ h, Option.isSome_none]
  | cons c rest ih =>
    rw [searchFrom, hnone _ _ h, Option.orElse_none]
    exact ih (List.cons_ne_nil c before)

/-- A pattern that begins with the start of a text is searched for there only. -/
theorem search_textStart {p : Pattern} {text : String} :
    (seq (anchor .textStart) p).search text = p.matchesStart text := by
  have hstart : (seq (anchor .textStart) p).run ⟨[], text.toList, []⟩ some =
      p.run ⟨[], text.toList, []⟩ some := by
    simp
  unfold search matchesStart
  cases hchars : text.toList with
  | nil =>
    rw [hchars] at hstart
    rw [searchFrom, hstart]
  | cons c rest =>
    rw [hchars] at hstart
    rw [searchFrom, hstart]
    cases p.run ⟨[], c :: rest, []⟩ some with
    | some s => rfl
    | none => exact searchFrom_textStart (List.cons_ne_nil c [])

end Pattern

end BusinessModel
