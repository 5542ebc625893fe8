import BusinessModel.Text.Case
import Mathlib.Data.List.Basic

/-!
Small letters in context. Each character has its small form whatever stands around it, but for the
capital sigma, which has two; so the small form of a text does not depend on what comes before, as
long as both small sigmas count as one. A text that is in small letters stays so, and so do its parts.
-/

namespace BusinessModel.Text

/-- The small sigma for either of its two forms. -/
def oneSigma (c : Char) : Char := if c = 'ς' then 'σ' else c

theorem oneSigma_eq_iff {c d : Char} (hd : d ≠ 'σ' ∧ d ≠ 'ς') : oneSigma c = d ↔ c = d := by
  unfold oneSigma
  split
  · next h =>
    rw [h]
    exact iff_of_false hd.1.symm hd.2.symm
  · rfl

/-- A text without small sigmas is told by its characters, the two sigmas counting as one. -/
theorem map_oneSigma_eq_iff {cs ds : List Char} (hds : ∀ d ∈ ds, d ≠ 'σ' ∧ d ≠ 'ς') :
    cs.map oneSigma = ds ↔ cs = ds := by
  induction ds generalizing cs with
  | nil => exact List.map_eq_nil_iff
  | cons d ds ih =>
    obtain ⟨hd, hds⟩ := List.forall_mem_cons.mp hds
    cases cs with
    | nil => simp
    | cons c cs => rw [List.map_cons, List.cons.injEq, List.cons.injEq, oneSigma_eq_iff hd, ih hds]

/-- What comes before a text decides on the form of its sigmas only. -/
theorem map_oneSigma_lowerChars (before before' cs : List Char) :
    (lowerChars before cs).map oneSigma = (lowerChars before' cs).map oneSigma := by
  induction cs generalizing before before' with
  | nil => rfl
  | cons c rest ih =>
    rw [lowerChars, lowerChars, List.map_append, List.map_append, ih (c :: before) (c :: before')]
    congr 1
    split
    · split <;> split <;> rfl
    · rfl

/-- A text in front is put in small letters first. -/
theorem lowerChars_append (before front cs : List Char) :
    ∃ small, lowerChars before (front ++ cs) = small ++ lowerChars (front.reverse ++ before) cs := by
  induction front generalizing before with
  | nil => exact ⟨[], rfl⟩
  | cons c front ih =>
    obtain ⟨small, hsmall⟩ := ih (c :: before)
    rw [List.cons_append, lowerChars, hsmall, ← List.append_assoc, List.reverse_cons,
      List.append_assoc _ [c], List.singleton_append]
    exact ⟨_, rfl⟩

theorem lowerChars_point (before cs : List Char) :
    lowerChars before ('.' :: cs) = '.' :: lowerChars ('.' :: before) cs := rfl

theorem lowerChar_ne_nil (c : Char) : lowerChar c ≠ [] := by
  unfold lowerChar
  extract_lets n
  split
  · exact List.cons_ne_nil _ _
  · split
    · exact List.cons_ne_nil _ _
    · split <;> exact List.cons_ne_nil _ _

theorem length_le_lowerChars (before cs : List Char) : cs.length ≤ (lowerChars before cs).length := by
  induction cs generalizing before with
  | nil => exact Nat.zero_le _
  | cons c rest ih =>
    have hpos := List.length_pos_iff.mpr (lowerChar_ne_nil c)
    have hrest := ih (c :: before)
    rw [lowerChars, List.length_append, List.length_cons]
    split
    · split <;> simp only [List.length_singleton] <;> omega
    · omega

/-- A text is in small letters if each of its characters is. -/
theorem lowerChars_eq_self_iff {before cs : List Char} :
    lowerChars before cs = cs ↔ ∀ c ∈ cs, c ≠ capitalSigma ∧ lowerChar c = [c] := by
  induction cs generalizing before with
  | nil => simp [lowerChars]
  | cons c rest ih =>
    rw [lowerChars, List.forall_mem_cons]
    by_cases hsigma : c = capitalSigma
    · refine iff_of_false ?_ fun h => h.1.1 hsigma
      rw [hsigma, if_pos (beq_self_eq_true _)]
      intro h
      split at h <;> exact absurd (List.cons.inj h).1 (by decide)
    · rw [if_neg (by simpa using hsigma), ← @ih (c :: before)]
      constructor
      · intro h
        -- No character vanishes, so the first of them makes one character and the others the rest.
        have hlength := congrArg List.length h
        have hrest := length_le_lowerChars (c :: before) rest
        have hpos := List.length_pos_iff.mpr (lowerChar_ne_nil c)
        rw [List.length_append, List.length_cons] at hlength
        have hone : (lowerChar c).length = [c].length := by
          rw [List.length_singleton]
          omega
        obtain ⟨hfirst, hrest⟩ := List.append_inj h hone
        exact ⟨⟨hsigma, hfirst⟩, hrest⟩
      · rintro ⟨⟨_, hfirst⟩, hrest⟩
        rw [hfirst, hrest, List.singleton_append]

/-- The last part of a text in small letters is in small letters. -/
theorem lower_eq_self_of_append {front s : String} (h : lower (front ++ s) = front ++ s) :
    lower s = s := by
  have hchars := congrArg String.toList h
  rw [lower, String.toList_ofList, String.toList_append, lowerChars_eq_self_iff] at hchars
  rw [lower, lowerChars_eq_self_iff.mpr fun c hc => hchars c (List.mem_append_right _ hc),
    String.ofList_toList]

end BusinessModel.Text
