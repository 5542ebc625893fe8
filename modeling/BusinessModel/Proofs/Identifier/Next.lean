import BusinessModel.Proofs.Identifier.Numbering
import Mathlib.Data.List.Dedup
import Mathlib.Data.List.Perm.Subperm

/-!
The next free identifier: numbers are tried from the first on, and since different numbers have
different identifiers, one of the first numbers is free, as many as there are identifiers taken and one
more.
-/

namespace BusinessModel

namespace Text

theorem zeroFill_intText_of_nonneg {n : Int} (hn : 0 ≤ n) (width : Nat) :
    zeroFill width (intText n) = String.ofList (numeral width n.natAbs) := by
  rw [intText, if_neg (by omega), zeroFill_natText]

theorem zeroFill_intText_of_neg {n : Int} (hn : n < 0) (width : Nat) :
    zeroFill width (intText n) = String.ofList ('-' :: numeral (width - 1) n.natAbs) := by
  rw [intText, if_pos hn, zeroFill_neg_natText]

/-- A number is told apart from the others by its text, however that is filled with zeros. -/
theorem zeroFill_intText_injective (width : Nat) :
    Function.Injective fun n : Int => zeroFill width (intText n) := by
  have hvalue {w : Nat} {m n : Int} (h : numeral w m.natAbs = numeral w n.natAbs) :
      m.natAbs = n.natAbs := by
    have := congrArg (Nat.ofDigitChars 10 · 0) h
    simpa only [ofDigitChars_numeral] using this
  have hsign {w w' : Nat} {m n : Int} : numeral w m.natAbs ≠ '-' :: numeral w' n.natAbs := fun h => by
    have hdigit := List.all_eq_true.mp (@isDigit_numeral w m.natAbs) '-' (by simp [h])
    cases hdigit
  intro m n h
  rcases Int.lt_or_le m 0 with hm | hm <;> rcases Int.lt_or_le n 0 with hn | hn
  · simp only [zeroFill_intText_of_neg hm, zeroFill_intText_of_neg hn] at h
    have := hvalue (List.cons.inj (String.ofList_injective h)).2
    omega
  · simp only [zeroFill_intText_of_neg hm, zeroFill_intText_of_nonneg hn] at h
    exact absurd (String.ofList_injective h).symm hsign
  · simp only [zeroFill_intText_of_nonneg hm, zeroFill_intText_of_neg hn] at h
    exact absurd (String.ofList_injective h) hsign
  · simp only [zeroFill_intText_of_nonneg hm, zeroFill_intText_of_nonneg hn] at h
    have := hvalue (String.ofList_injective h)
    omega

end Text

namespace IdScheme

variable (s : IdScheme) (letters : String) (taken : List String)

theorem format_injective : Function.Injective (s.format letters) := fun _ _ h =>
  Text.zeroFill_intText_injective _ (String.append_right_inj letters |>.mp h)

/-- The identifiers of the next `k` numbers are taken. -/
def TakenFrom (number : Int) (k : Nat) : Prop :=
  ∀ j < k, s.format letters (number + j) ∈ taken

variable {s letters taken}

/-- No more numbers are skipped than there are identifiers taken, since their identifiers differ. -/
theorem TakenFrom.le_length_dedup {number : Int} {k : Nat} (h : TakenFrom s letters taken number k) :
    k ≤ taken.dedup.length := by
  have hnodup : ((List.range k).map fun j : Nat => s.format letters (number + j)).Nodup := by
    refine List.Nodup.map (fun i j hij => ?_) List.nodup_range
    have := s.format_injective letters hij
    omega
  have hsubset : ((List.range k).map fun j : Nat => s.format letters (number + j)) ⊆ taken.dedup := by
    intro id hid
    obtain ⟨j, hj, rfl⟩ := List.mem_map.mp hid
    exact List.mem_dedup.mpr (h j (List.mem_range.mp hj))
  simpa using (List.subperm_of_subset hnodup hsubset).length_le

/-- A search goes on as long as identifiers are taken and fuel is left. -/
theorem nextFrom_eq_format (fuel : Nat) (number : Int) :
    ∃ k : Nat, s.nextFrom letters taken fuel number = s.format letters (number + k) ∧
      TakenFrom s letters taken number k ∧ k ≤ fuel ∧
      (k < fuel → s.format letters (number + k) ∉ taken) := by
  induction fuel generalizing number with
  | zero => exact ⟨0, by simp [nextFrom], by simp [TakenFrom], Nat.le_refl 0, by simp⟩
  | succ fuel ih =>
    by_cases htaken : s.format letters number ∈ taken
    · obtain ⟨k, hnext, hskipped, hle, hfree⟩ := ih (number + 1)
      have hshift (j : Nat) : number + (j + 1 : Nat) = number + 1 + j := by omega
      refine ⟨k + 1, ?_, ?_, by omega, fun hlt => ?_⟩
      · rw [nextFrom, if_pos (by simpa using htaken), hnext, hshift]
      · rintro (_ | j) hj
        · simpa using htaken
        · rw [hshift]
          exact hskipped j (by omega)
      · rw [hshift]
        exact hfree (by omega)
    · refine ⟨0, ?_, by simp [TakenFrom], Nat.zero_le _, fun _ => by simpa using htaken⟩
      rw [nextFrom, if_neg (by simpa using htaken)]
      simp

/-- The next identifier is that of the first number that is free, which comes after at most as many
others as there are identifiers taken. -/
theorem next_eq_format (start : Option Int) :
    ∃ k : Nat, s.next letters taken start = s.format letters (start.getD s.initOffset + k) ∧
      TakenFrom s letters taken (start.getD s.initOffset) k ∧ k ≤ taken.dedup.length ∧
      s.format letters (start.getD s.initOffset + k) ∉ taken := by
  obtain ⟨k, hnext, hskipped, hle, hfree⟩ :=
    @nextFrom_eq_format s letters taken taken.length (start.getD s.initOffset)
  refine ⟨k, hnext, hskipped, hskipped.le_length_dedup, fun htaken => ?_⟩
  rcases Nat.lt_or_eq_of_le hle with hlt | heq
  · exact hfree hlt htaken
  · -- One more number would be skipped than there are identifiers taken.
    have hmore : TakenFrom s letters taken (start.getD s.initOffset) (k + 1) := fun j hj => by
      rcases Nat.lt_succ_iff_lt_or_eq.mp hj with hj | rfl
      · exact hskipped j hj
      · exact htaken
    have := hmore.le_length_dedup
    have := (List.dedup_sublist taken).length_le
    omega

end IdScheme

end BusinessModel
