import Mathlib.Data.List.Chain
import Mathlib.Data.List.Rotate
import Mathlib.Order.Lattice

/-!
Elementary cycles of a relation. Up to rotation a cycle is one and the same, so each has exactly one
writing that starts at its smallest vertex; and there is a cycle if and only if a vertex leads back
to itself.
-/

namespace BusinessModel.Cycle

variable {α : Type} {R S : α → α → Prop}

/-- A closed way along `R` that meets no vertex twice, written from one of its vertices on. -/
def IsElementary (R : α → α → Prop) : List α → Prop
  | [] => False
  | v :: rest => (v :: rest).Nodup ∧ (v :: (rest ++ [v])).IsChain R

/-- The first of several vertices is the smallest. -/
def StartsSmallest [LE α] : List α → Prop
  | [] => True
  | v :: rest => ∀ x ∈ rest, v ≤ x

theorem isElementary_cons {v : α} {rest : List α} :
    IsElementary R (v :: rest) ↔ (v :: rest).Nodup ∧ (v :: (rest ++ [v])).IsChain R :=
  Iff.rfl

theorem startsSmallest_cons [LE α] {v : α} {rest : List α} :
    StartsSmallest (v :: rest) ↔ ∀ x ∈ rest, v ≤ x :=
  Iff.rfl

theorem IsElementary.ne_nil {c : List α} (h : IsElementary R c) : c ≠ [] := by
  rintro rfl
  exact h

theorem IsElementary.nodup {c : List α} (h : IsElementary R c) : c.Nodup := by
  cases c with
  | nil => exact List.nodup_nil
  | cons v rest => exact h.1

theorem IsElementary.congr {c : List α} (hiff : ∀ a b, R a b ↔ S a b) :
    IsElementary R c ↔ IsElementary S c := by
  have heq : R = S := funext fun a => funext fun b => propext (hiff a b)
  rw [heq]

/-! ### Rotations -/

theorem IsElementary.append_comm {xs ys : List α} (h : IsElementary R (xs ++ ys)) :
    IsElementary R (ys ++ xs) := by
  cases xs with
  | nil => simpa using h
  | cons v xs =>
    cases ys with
    | nil => simpa using h
    | cons w ys =>
      have hperm : (v :: xs ++ w :: ys).Perm (w :: ys ++ v :: xs) := List.perm_append_comm
      rw [List.cons_append, isElementary_cons, List.append_assoc, List.cons_append,
        List.isChain_cons_split] at h ⊢
      exact ⟨hperm.nodup_iff.mp h.1, h.2.2, h.2.1⟩

theorem IsElementary.isRotated {c c' : List α} (h : IsElementary R c) (hrotated : c ~r c') :
    IsElementary R c' := by
  obtain ⟨n, rfl⟩ := hrotated
  rw [List.rotate_eq_drop_append_take_mod]
  apply IsElementary.append_comm
  rwa [List.take_append_drop]

theorem exists_isRotated_startsSmallest [LinearOrder α] (c : List α) :
    ∃ c', c ~r c' ∧ StartsSmallest c' := by
  cases c with
  | nil => exact ⟨[], List.IsRotated.refl [], trivial⟩
  | cons v rest =>
    have hmin : ∃ m ∈ v :: rest, ∀ x ∈ v :: rest, m ≤ x := by
      induction rest generalizing v with
      | nil => exact ⟨v, by simp, by simp⟩
      | cons w rest ih =>
        obtain ⟨m, hm, hle⟩ := ih w
        rcases le_total v m with hvm | hmv
        · refine ⟨v, by simp, fun x hx => ?_⟩
          rcases List.mem_cons.mp hx with rfl | hx
          · exact le_rfl
          · exact hvm.trans (hle x hx)
        · refine ⟨m, List.mem_cons_of_mem _ hm, fun x hx => ?_⟩
          rcases List.mem_cons.mp hx with rfl | hx
          · exact hmv
          · exact hle x hx
    obtain ⟨m, hm, hle⟩ := hmin
    obtain ⟨before, after, hsplit⟩ := List.append_of_mem hm
    rw [hsplit] at hle ⊢
    refine ⟨m :: after ++ before, List.isRotated_append, ?_⟩
    rw [List.cons_append, startsSmallest_cons]
    refine fun x hx => hle x ?_
    rw [List.mem_append] at hx ⊢
    rcases hx with hx | hx
    · exact Or.inr (List.mem_cons_of_mem _ hx)
    · exact Or.inl hx

/-- A cycle has only one writing that starts at its smallest vertex. -/
theorem eq_of_isRotated [PartialOrder α] {c c' : List α} (hnodup : c.Nodup)
    (hrotated : c ~r c') (hc : StartsSmallest c) (hc' : StartsSmallest c') : c = c' := by
  obtain ⟨n, rfl⟩ := hrotated
  rw [List.rotate_eq_drop_append_take_mod] at hc' ⊢
  generalize hxs : c.take (n % c.length) = xs at hc' ⊢
  generalize hys : c.drop (n % c.length) = ys at hc' ⊢
  have hsplit : c = xs ++ ys := by rw [← hxs, ← hys, List.take_append_drop]
  subst hsplit
  cases xs with
  | nil => simp
  | cons v xs =>
    cases ys with
    | nil => simp
    | cons w ys =>
      have hvw : v ≤ w := hc w (by simp)
      have hwv : w ≤ v := hc' v (by simp)
      have heq := le_antisymm hvw hwv
      subst heq
      simp at hnodup

/-! ### Ways from a vertex back to itself -/

/-- A cycle goes on from its first vertex. -/
private theorem exists_append_eq_cons (rest : List α) (v : α) :
    ∃ w more, rest ++ [v] = w :: more := by
  cases rest with
  | nil => exact ⟨v, [], rfl⟩
  | cons w rest => exact ⟨w, rest ++ [v], rfl⟩

theorem IsElementary.exists_next {v : α} {rest : List α} (h : IsElementary R (v :: rest)) :
    ∃ w, R v w := by
  obtain ⟨-, hchain⟩ := h
  obtain ⟨w, more, hmore⟩ := exists_append_eq_cons rest v
  rw [hmore, List.isChain_cons_cons] at hchain
  exact ⟨w, hchain.1⟩

/-- A cycle goes on from each of its vertices. -/
theorem IsElementary.exists_next_of_mem {c : List α} (h : IsElementary R c) {v : α} (hv : v ∈ c) :
    ∃ w, R v w := by
  obtain ⟨before, after, rfl⟩ := List.append_of_mem hv
  exact IsElementary.exists_next (h.isRotated List.isRotated_append)

theorem IsElementary.transGen {v : α} {rest : List α} (h : IsElementary R (v :: rest)) :
    Relation.TransGen R v v := by
  obtain ⟨-, hchain⟩ := h
  obtain ⟨w, more, hmore⟩ := exists_append_eq_cons rest v
  have hlast : (w :: more).getLast (List.cons_ne_nil _ _) = v := by
    simp only [← hmore, List.getLast_concat]
  rw [hmore, List.isChain_cons_cons] at hchain
  exact .head' hchain.1 (List.relationReflTransGen_of_exists_isChain_cons more hchain.2 hlast)

/-- A closed way that meets a vertex twice contains a shorter one. -/
private theorem exists_isElementary_of_isChain {v : α} {rest : List α}
    (hchain : (v :: (rest ++ [v])).IsChain R) : ∃ c, IsElementary R c := by
  induction hn : rest.length using Nat.strongRecOn generalizing v rest with
  | ind n ih =>
    by_cases hnodup : (v :: rest).Nodup
    · exact ⟨v :: rest, hnodup, hchain⟩
    · rw [List.nodup_iff_sublist, not_forall] at hnodup
      obtain ⟨w, htwice⟩ := hnodup
      obtain ⟨first, second, heq, hfirst, hsecond⟩ := List.cons_sublist_iff.mp (not_not.mp htwice)
      obtain ⟨before, middle, rfl⟩ := List.append_of_mem hfirst
      obtain ⟨middle', after, rfl⟩ := List.append_of_mem (List.singleton_sublist.mp hsecond)
      have hway : v :: (rest ++ [v]) =
          before ++ w :: (middle ++ middle' ++ w :: (after ++ [v])) := by
        rw [← List.cons_append, heq]
        simp
      rw [hway, List.isChain_split, List.isChain_cons_split] at hchain
      have hlength := congrArg List.length heq
      simp only [List.length_cons, List.length_append] at hlength
      exact ih (middle ++ middle').length (by simp only [List.length_append]; omega)
        hchain.2.1 rfl

theorem exists_isElementary_of_transGen {v : α} (h : Relation.TransGen R v v) :
    ∃ c, IsElementary R c := by
  obtain ⟨w, hvw, hwv⟩ := Relation.TransGen.head'_iff.mp h
  obtain ⟨more, hchain, hlast⟩ := List.exists_isChain_cons_of_relationReflTransGen hwv
  have hconcat : w :: more = (w :: more).dropLast ++ [v] := by
    rw [← hlast, List.dropLast_append_getLast]
  have hclosed : (v :: ((w :: more).dropLast ++ [v])).IsChain R := by
    rw [← hconcat, List.isChain_cons_cons]
    exact ⟨hvw, hchain⟩
  exact exists_isElementary_of_isChain hclosed

end BusinessModel.Cycle
