import Mathlib.Data.List.Basic

/-!
Lists that enumerate what stands at places: each place once, in the order of the places, and no
place left out. Two lists that enumerate the same are equal, so a list is determined by what it is
said to enumerate.
-/

namespace BusinessModel

variable {ι κ α β : Type}

/-- The list holds what `R` relates to places: one member for each place that `R` relates anything
to, in increasing order of the places. -/
def Enumerates [LT ι] (R : ι → α → Prop) (xs : List α) : Prop :=
  ∃ found : List (ι × α), found.Pairwise (fun a b => a.1 < b.1) ∧
    (∀ place a, (place, a) ∈ found ↔ R place a) ∧ found.map (·.2) = xs

namespace Enumerates

variable [LT ι] {R S : ι → α → Prop} {xs ys : List α}

theorem congr (h : Enumerates R xs) (hiff : ∀ place a, R place a ↔ S place a) :
    Enumerates S xs := by
  obtain ⟨found, hsorted, hmem, hvalues⟩ := h
  exact ⟨found, hsorted, fun place a => (hmem place a).trans (hiff place a), hvalues⟩

/-- A value is listed if and only if it stands at some place. -/
theorem mem_iff (h : Enumerates R xs) (a : α) : a ∈ xs ↔ ∃ place, R place a := by
  obtain ⟨found, _, hmem, rfl⟩ := h
  simp [← hmem]

theorem of_forall_not (h : ∀ place a, ¬ R place a) : Enumerates R [] :=
  ⟨[], List.Pairwise.nil, by simpa using h, rfl⟩

theorem append (hxs : Enumerates R xs) (hys : Enumerates S ys)
    (hlt : ∀ place a place' b, R place a → S place' b → place < place') :
    Enumerates (fun place a => R place a ∨ S place a) (xs ++ ys) := by
  obtain ⟨first, hfirst, hmemFirst, rfl⟩ := hxs
  obtain ⟨second, hsecond, hmemSecond, rfl⟩ := hys
  refine ⟨first ++ second, ?_, ?_, List.map_append⟩
  · refine List.pairwise_append.mpr ⟨hfirst, hsecond, ?_⟩
    rintro ⟨place, a⟩ ha ⟨place', b⟩ hb
    exact hlt place a place' b ((hmemFirst place a).mp ha) ((hmemSecond place' b).mp hb)
  · intro place a
    rw [List.mem_append, hmemFirst, hmemSecond]

theorem singleton (place : ι) (a : α) :
    Enumerates (fun place' b => place' = place ∧ b = a) [a] :=
  ⟨[(place, a)], List.pairwise_singleton _ _, by simp, rfl⟩

theorem cons (place : ι) (a : α) (h : Enumerates S xs)
    (hlt : ∀ place' b, S place' b → place < place') :
    Enumerates (fun place' b => (place' = place ∧ b = a) ∨ S place' b) (a :: xs) := by
  refine (singleton place a).append h ?_
  rintro _ b place' c ⟨rfl, _⟩ hc
  exact hlt place' c hc

/-- The places may be renamed by a function that keeps their order. -/
theorem rename [LT κ] (h : Enumerates R xs) (f : ι → κ)
    (hf : ∀ place place', place < place' → f place < f place') :
    Enumerates (fun place a => ∃ old, place = f old ∧ R old a) xs := by
  obtain ⟨found, hsorted, hmem, rfl⟩ := h
  refine ⟨found.map fun p => (f p.1, p.2), ?_, ?_, ?_⟩
  · exact List.pairwise_map.mpr (hsorted.imp (hf _ _))
  · intro place a
    constructor
    · intro hfound
      obtain ⟨⟨old, b⟩, hold, heq⟩ := List.mem_map.mp hfound
      obtain ⟨rfl, rfl⟩ := Prod.mk.inj heq
      exact ⟨old, rfl, (hmem old b).mp hold⟩
    · rintro ⟨old, rfl, hR⟩
      exact List.mem_map.mpr ⟨(old, a), (hmem old a).mpr hR, rfl⟩
  · simp [Function.comp_def]

theorem filterMap (h : Enumerates R xs) (f : α → Option β) :
    Enumerates (fun place b => ∃ a, R place a ∧ f a = some b) (xs.filterMap f) := by
  obtain ⟨found, hsorted, hmem, rfl⟩ := h
  refine ⟨found.filterMap fun p => (f p.2).map (p.1, ·), ?_, ?_, ?_⟩
  · refine List.pairwise_filterMap.mpr (hsorted.imp ?_)
    rintro ⟨place, a⟩ ⟨place', a'⟩ hlt p hp p' hp'
    obtain ⟨b, _, rfl⟩ := Option.map_eq_some_iff.mp hp
    obtain ⟨b', _, rfl⟩ := Option.map_eq_some_iff.mp hp'
    exact hlt
  · intro place b
    simp only [List.mem_filterMap, Option.map_eq_some_iff, Prod.mk.injEq]
    constructor
    · rintro ⟨⟨place', a⟩, hfound, c, hc, rfl, rfl⟩
      exact ⟨a, (hmem _ a).mp hfound, hc⟩
    · rintro ⟨a, hR, hb⟩
      exact ⟨(place, a), (hmem place a).mpr hR, b, hb, rfl, rfl⟩
  · rw [List.map_filterMap, List.filterMap_map]
    congr 1
    funext p
    simp [Function.comp_def]

theorem map (h : Enumerates R xs) (f : α → β) :
    Enumerates (fun place b => ∃ a, R place a ∧ b = f a) (xs.map f) := by
  have hmap := h.filterMap fun a => some (f a)
  rw [List.filterMap_eq_map'] at hmap
  exact hmap.congr fun place b => by simp [eq_comm]

theorem filter (h : Enumerates R xs) (p : α → Bool) :
    Enumerates (fun place a => R place a ∧ p a = true) (xs.filter p) := by
  have hfilter := h.filterMap (Option.guard p)
  rw [List.filterMap_eq_filter] at hfilter
  refine hfilter.congr fun place a => ?_
  simp only [Option.guard_eq_some_iff]
  constructor
  · rintro ⟨b, hR, rfl, hp⟩
    exact ⟨hR, hp⟩
  · rintro ⟨hR, hp⟩
    exact ⟨a, hR, rfl, hp⟩

/-- What tells the places apart is different for each member. -/
theorem nodup_map [Std.Asymm (α := ι) (· < ·)] (h : Enumerates R xs) {f : α → β}
    (hf : ∀ place a place' b, R place a → R place' b → f a = f b → place = place') :
    (xs.map f).Nodup := by
  obtain ⟨found, hsorted, hmem, rfl⟩ := h
  rw [List.map_map, List.Nodup, List.pairwise_map]
  refine hsorted.imp_of_mem fun {a b} ha hb hlt heq => ?_
  have hplace := hf a.1 a.2 b.1 b.2 ((hmem a.1 a.2).mp ha) ((hmem b.1 b.2).mp hb) heq
  rw [hplace] at hlt
  exact Std.Asymm.asymm _ _ hlt hlt

/-- Among the enumerated values with a property there is one whose place comes first. -/
theorem exists_first [Std.Asymm (α := ι) (· < ·)] (h : Enumerates R xs) {p : α → Prop}
    {place : ι} {a : α} (hR : R place a) (hp : p a) :
    ∃ first b, R first b ∧ p b ∧ ∀ place' c, R place' c → p c → ¬ place' < first := by
  obtain ⟨found, hsorted, hmem, rfl⟩ := h
  have hfound := (hmem place a).mpr hR
  simp only [← hmem]
  clear hmem hR
  induction found with
  | nil => cases hfound
  | cons q rest ih =>
    obtain ⟨first, b⟩ := q
    obtain ⟨hlt, hrest⟩ := List.pairwise_cons.mp hsorted
    by_cases hb : p b
    · refine ⟨first, b, List.mem_cons_self, hb, fun place' c hc _ hlt' => ?_⟩
      rcases List.mem_cons.mp hc with heq | hc
      · cases heq
        exact Std.Asymm.asymm _ _ hlt' hlt'
      · exact Std.Asymm.asymm _ _ hlt' (hlt _ hc)
    · have hne : (place, a) ≠ (first, b) := by
        intro heq
        cases heq
        exact hb hp
      obtain ⟨first', b', hmem', hb', hfirst⟩ :=
        ih hrest ((List.mem_cons.mp hfound).resolve_left hne)
      refine ⟨first', b', List.mem_cons_of_mem _ hmem', hb', fun place' c hc hpc => ?_⟩
      rcases List.mem_cons.mp hc with heq | hc
      · cases heq
        exact absurd hpc hb
      · exact hfirst place' c hc hpc

end Enumerates

/-- The members of a list are enumerated by their indices. -/
theorem zipIdx_enumerates (xs : List α) :
    Enumerates (fun i (p : α × Nat) => i = p.2 ∧ xs[i]? = some p.1) xs.zipIdx := by
  refine ⟨xs.zipIdx.map fun p => (p.2, p), ?_, ?_, by simp [Function.comp_def]⟩
  · have hsorted : (xs.zipIdx.map (·.2)).Pairwise (· < ·) := by
      rw [List.zipIdx_map_snd]
      exact List.pairwise_lt_range'
    exact List.pairwise_map.mpr (List.pairwise_map.mp hsorted)
  · rintro i ⟨a, j⟩
    rw [List.mem_map]
    constructor
    · rintro ⟨⟨b, k⟩, hmem, heq⟩
      cases heq
      exact ⟨rfl, List.mem_zipIdx_iff_getElem?.mp hmem⟩
    · rintro ⟨rfl, hat⟩
      exact ⟨(a, i), List.mem_zipIdx_iff_getElem?.mpr hat, rfl⟩

/-! ### Places that begin with the number of a part -/

/-- What stands in one of several parts that follow `n` others: its place begins with the number of
the part. -/
def InParts (n : Nat) (R : Nat → List Nat → α → Prop) (place : List Nat) (a : α) : Prop :=
  ∃ i inner, place = (n + i) :: inner ∧ R i inner a

namespace Enumerates

theorem inParts_nil {n : Nat} {R : Nat → List Nat → α → Prop}
    (h : ∀ i place a, ¬ R i place a) : Enumerates (InParts n R) [] := by
  refine of_forall_not ?_
  rintro place a ⟨i, inner, _, hR⟩
  exact h i inner a hR

/-- A first part and further parts are enumerated one behind the other. -/
theorem inParts_cons {n : Nat} {R S : Nat → List Nat → α → Prop} {xs ys : List α}
    (hfirst : Enumerates (R 0) xs) (hrest : Enumerates (InParts (n + 1) S) ys)
    (hsucc : ∀ i place a, R (i + 1) place a ↔ S i place a) :
    Enumerates (InParts n R) (xs ++ ys) := by
  have hshift := hfirst.rename (n :: ·) fun place place' hlt =>
    List.cons_lt_cons_iff.mpr (Or.inr ⟨rfl, hlt⟩)
  refine (hshift.append hrest ?_).congr fun place a => ?_
  · rintro _ a _ b ⟨inner, rfl, _⟩ ⟨i, inner', rfl, _⟩
    exact List.cons_lt_cons_iff.mpr (Or.inl (by omega))
  · constructor
    · rintro (⟨inner, rfl, hR⟩ | ⟨i, inner, rfl, hS⟩)
      · exact ⟨0, inner, rfl, hR⟩
      · have hnumber : n + 1 + i = n + (i + 1) := by omega
        exact ⟨i + 1, inner, by rw [hnumber], (hsucc i inner a).mpr hS⟩
    · rintro ⟨i, inner, rfl, hR⟩
      cases i with
      | zero => exact Or.inl ⟨inner, rfl, hR⟩
      | succ i =>
        have hnumber : n + (i + 1) = n + 1 + i := by omega
        exact Or.inr ⟨i, inner, by rw [hnumber], (hsucc i inner a).mp hR⟩

/-- The parts that the members of a list stand for are enumerated one behind the other. -/
theorem flatMap_inParts {R : α → List Nat → β → Prop} {f : α → List β}
    (h : ∀ a, Enumerates (R a) (f a)) (n : Nat) (xs : List α) :
    Enumerates (InParts n fun i place b => ∃ a, xs[i]? = some a ∧ R a place b)
      (xs.flatMap f) := by
  induction xs generalizing n with
  | nil => exact inParts_nil (by simp)
  | cons a rest ih =>
    rw [List.flatMap_cons]
    refine inParts_cons ((h a).congr fun place b => ?_) (ih (n + 1)) fun i place b => ?_
    · simp
    · simp

end Enumerates

end BusinessModel
