import BusinessModel.Text.Distance

/-!
The closest of the candidates for a mistyped text: the first of those at the least distance, if that
distance is small enough.

One bound serves as threshold and as least distance so far. What a search makes of it depends on
whether a candidate ahead is below the bound.
-/

namespace BusinessModel.Text

/-- The first of the candidates at the least distance from `needle`, which is below `bound`. -/
def IsFirstBelow (needle : String) (bound : Nat) (candidates : List Value) (c : String) : Prop :=
  distance needle (lower c) < bound ∧ ∃ before after, candidates = before ++ .str c :: after ∧
    (∀ c', .str c' ∈ before → distance needle (lower c) < distance needle (lower c')) ∧
      ∀ c', .str c' ∈ after → distance needle (lower c) ≤ distance needle (lower c')

namespace IsFirstBelow

variable {needle c c' : String} {bound : Nat} {v : Value} {candidates : List Value}

theorem cons (h : IsFirstBelow needle bound candidates c)
    (hfarther : ∀ c', v = .str c' → distance needle (lower c) < distance needle (lower c')) :
    IsFirstBelow needle bound (v :: candidates) c := by
  obtain ⟨hbound, before, after, rfl, hbefore, hafter⟩ := h
  refine ⟨hbound, v :: before, after, rfl, fun c' hc' => ?_, hafter⟩
  rcases List.mem_cons.mp hc' with hv | hc'
  · exact hfarther c' hv.symm
  · exact hbefore c' hc'

theorem mono {bound' : Nat} (h : IsFirstBelow needle bound candidates c) (hle : bound ≤ bound') :
    IsFirstBelow needle bound' candidates c :=
  ⟨Nat.lt_of_lt_of_le h.1 hle, h.2⟩

theorem mem (h : IsFirstBelow needle bound candidates c) : .str c ∈ candidates := by
  obtain ⟨_, before, after, rfl, _, _⟩ := h
  simp

theorem le (h : IsFirstBelow needle bound candidates c) (hmem : .str c' ∈ candidates) :
    distance needle (lower c) ≤ distance needle (lower c') := by
  obtain ⟨_, before, after, rfl, hbefore, hafter⟩ := h
  rcases List.mem_append.mp hmem with hmem | hmem
  · exact Nat.le_of_lt (hbefore c' hmem)
  · rcases List.mem_cons.mp hmem with heq | hmem
    · cases heq
      exact Nat.le_refl _
    · exact hafter c' hmem

theorem unique (h : IsFirstBelow needle bound candidates c)
    (h' : IsFirstBelow needle bound candidates c') : c = c' := by
  have heq : distance needle (lower c) = distance needle (lower c') :=
    Nat.le_antisymm (h.le h'.mem) (h'.le h.mem)
  obtain ⟨_, before, after, rfl, hbefore, _⟩ := h
  obtain ⟨_, before', after', hsplit, hbefore', _⟩ := h'
  -- The candidate that comes later would have the other one at no greater distance in front of it.
  rcases List.append_eq_append_iff.mp hsplit with ⟨between, hfront, hback⟩ | ⟨between, hfront, hback⟩
  · cases between with
    | nil =>
      cases hback
      rfl
    | cons v between =>
      obtain ⟨rfl, -⟩ := List.cons.inj hback
      have := hbefore' c (by simp [hfront])
      omega
  · cases between with
    | nil =>
      cases hback
      rfl
    | cons v between =>
      obtain ⟨rfl, -⟩ := List.cons.inj hback
      have := hbefore c' (by simp [hfront])
      omega

end IsFirstBelow

/-- A search ends at the first of the closest candidates below the bound, or where it is if there is
none. -/
theorem closestFrom_cases (needle : String) (candidates : List Value) (best : Option String)
    (bound : Nat) :
    (∃ c, IsFirstBelow needle bound candidates c ∧
        closestFrom needle candidates best bound = some c) ∨
      (∀ c, .str c ∈ candidates → bound ≤ distance needle (lower c)) ∧
        closestFrom needle candidates best bound = best := by
  induction candidates generalizing best bound with
  | nil => exact .inr ⟨by simp, rfl⟩
  | cons v candidates ih =>
    -- A candidate at the bound or behind it, or none at all, leaves the search as it is.
    have hpassed (hfar : ∀ c, v = .str c → bound ≤ distance needle (lower c))
        (hskip : closestFrom needle (v :: candidates) best bound =
          closestFrom needle candidates best bound) :
        (∃ c, IsFirstBelow needle bound (v :: candidates) c ∧
            closestFrom needle (v :: candidates) best bound = some c) ∨
          (∀ c, .str c ∈ v :: candidates → bound ≤ distance needle (lower c)) ∧
            closestFrom needle (v :: candidates) best bound = best := by
      rw [hskip]
      rcases ih best bound with ⟨c, hc, hfound⟩ | ⟨hnone, hfound⟩
      · exact .inl ⟨c, hc.cons fun c' hv => Nat.lt_of_lt_of_le hc.1 (hfar c' hv), hfound⟩
      · refine .inr ⟨fun c hmem => ?_, hfound⟩
        rcases List.mem_cons.mp hmem with hv | hmem
        · exact hfar c hv.symm
        · exact hnone c hmem
    match v, hpassed with
    | .str d, hpassed =>
      by_cases hd : distance needle (lower d) < bound
      · left
        have htaken : closestFrom needle (.str d :: candidates) best bound =
            closestFrom needle candidates (some d) (distance needle (lower d)) := by
          rw [closestFrom, if_pos hd]
        rw [htaken]
        rcases ih (some d) (distance needle (lower d)) with ⟨c, hc, hfound⟩ | ⟨hnone, hfound⟩
        · refine ⟨c, (hc.mono (Nat.le_of_lt hd)).cons fun c' hv => ?_, hfound⟩
          cases hv
          exact hc.1
        · exact ⟨d, ⟨hd, [], candidates, rfl, by simp, hnone⟩, hfound⟩
      · refine hpassed (fun c hv => ?_) (by rw [closestFrom, if_neg hd])
        cases hv
        exact Nat.le_of_not_lt hd
    | .scalar .null, hpassed | .scalar (.bool _), hpassed | .scalar (.int _), hpassed
    | .scalar (.float _), hpassed | .list _, hpassed | .map _, hpassed =>
      exact hpassed (fun c hv => by cases hv) rfl

/-- The closest candidate for a text: of all that are texts, the first of those at the least distance,
which is not above the threshold. -/
def IsClosest (s : String) (candidates : List Value) (c : String) : Prop :=
  distance (lower s) (lower c) ≤ matchThreshold s ∧
    ∃ before after, candidates = before ++ .str c :: after ∧
      (∀ c', .str c' ∈ before → distance (lower s) (lower c) < distance (lower s) (lower c')) ∧
        ∀ c', .str c' ∈ after → distance (lower s) (lower c) ≤ distance (lower s) (lower c')

theorem isClosest_iff {s c : String} {candidates : List Value} :
    IsClosest s candidates c ↔ IsFirstBelow (lower s) (matchThreshold s + 1) candidates c := by
  rw [IsClosest, IsFirstBelow, Nat.lt_succ_iff]

section Search

variable {s : String} (hs : s ≠ "") (candidates : List Value)

include hs

/-- The search for the closest candidate ends at it, or with nothing if all are too far away. -/
theorem closest?_cases :
    (∃ c, IsClosest s candidates c ∧ closest? s candidates = some c) ∨
      (∀ c, .str c ∈ candidates → matchThreshold s < distance (lower s) (lower c)) ∧
        closest? s candidates = none := by
  have hsome : s.isEmpty = false := by simpa using hs
  rw [closest?, if_neg (by simp [hsome])]
  simpa only [isClosest_iff, Nat.succ_le_iff] using
    closestFrom_cases (lower s) candidates none (matchThreshold s + 1)

theorem closest?_eq_some_iff (c : String) :
    closest? s candidates = some c ↔ IsClosest s candidates c := by
  rcases closest?_cases hs candidates with ⟨c', hc', hfound⟩ | ⟨hfar, hfound⟩
  · rw [hfound, Option.some.injEq]
    constructor
    · rintro rfl
      exact hc'
    · intro hc
      exact (isClosest_iff.mp hc').unique (isClosest_iff.mp hc)
  · rw [hfound]
    refine iff_of_false (by simp) fun hc => ?_
    have := hfar c (isClosest_iff.mp hc).mem
    have := hc.1
    omega

theorem closest?_eq_none_iff :
    closest? s candidates = none ↔
      ∀ c, .str c ∈ candidates → matchThreshold s < distance (lower s) (lower c) := by
  rcases closest?_cases hs candidates with ⟨c, hc, hfound⟩ | ⟨hfar, hfound⟩
  · rw [hfound]
    refine iff_of_false (by simp) fun hfar => ?_
    have := hfar c (isClosest_iff.mp hc).mem
    have := hc.1
    omega
  · exact iff_of_true hfound hfar

end Search

/-- One of the options that is not too far away from a text and at least as close as any other. -/
structure IsNearest (s : String) (options : List String) (c : String) : Prop where
  mem : c ∈ options
  near : distance (lower s) (lower c) ≤ matchThreshold s
  least : ∀ c' ∈ options, distance (lower s) (lower c) ≤ distance (lower s) (lower c')

/-- What is suggested for a text is nearest to it. -/
theorem didYouMean_closest? (s : String) (options : List String) :
    didYouMean (closest? s (options.map .str)) = none ∨
      ∃ c, IsNearest s options c ∧
        didYouMean (closest? s (options.map .str)) = some ("Did you mean: \"" ++ c ++ "\"?") := by
  by_cases hs : s = ""
  · subst hs
    exact .inl rfl
  cases hclosest : closest? s (options.map .str) with
  | none => exact .inl rfl
  | some c =>
    have hc := isClosest_iff.mp ((closest?_eq_some_iff hs _ c).mp hclosest)
    have hmem (c' : String) : .str c' ∈ options.map Value.str ↔ c' ∈ options := by
      simp [Value.str]
    by_cases hempty : c = ""
    · exact .inl (by simp [didYouMean, hempty])
    · refine .inr ⟨c, ⟨(hmem c).mp hc.mem, Nat.lt_succ_iff.mp hc.1, fun c' hc' => ?_⟩, ?_⟩
      · exact hc.le ((hmem c').mpr hc')
      · simp [didYouMean, hempty]

end BusinessModel.Text
