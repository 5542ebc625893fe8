import BusinessModel.Proofs.Cycle.Elementary
import BusinessModel.Workspace.Cycle
import Mathlib.Data.List.Perm.Subperm
import Mathlib.Data.List.Sort
import Mathlib.Data.String.Basic

/-!
The search for cycles finds every elementary cycle of a graph once, in the writing that starts at
the smallest vertex, and lists them in lexicographic order.
-/

namespace BusinessModel.Cycle

/-- Whether an edge leads from one vertex to another. -/
def Joined (edges : List Edge) (v w : String) : Prop := (⟨v, w⟩ : Edge) ∈ edges

/-! ### Sorted lists without repetition -/

private theorem dropRepeats {xs : List String} (hsorted : xs.Pairwise (· ≤ ·)) :
    (∀ x, x ∈ xs.foldr (fun x rest => if rest.head? == some x then rest else x :: rest) [] ↔
        x ∈ xs) ∧
      (xs.foldr (fun x rest => if rest.head? == some x then rest else x :: rest) []).Pairwise
        (· < ·) := by
  induction xs with
  | nil => exact ⟨fun x => Iff.rfl, List.Pairwise.nil⟩
  | cons y ys ih =>
    obtain ⟨hle, hys⟩ := List.pairwise_cons.mp hsorted
    obtain ⟨hmem, hincreasing⟩ := ih hys
    rw [List.foldr_cons]
    generalize ys.foldr (fun x rest => if rest.head? == some x then rest else x :: rest) [] = rest
      at hmem hincreasing
    by_cases hhead : rest.head? = some y
    · rw [if_pos (by simpa using hhead)]
      refine ⟨fun x => ?_, hincreasing⟩
      rw [hmem, List.mem_cons]
      refine ⟨Or.inr, fun hx => hx.elim ?_ id⟩
      rintro rfl
      exact (hmem x).mp (List.mem_of_mem_head? hhead)
    · rw [if_neg (by simpa using hhead)]
      refine ⟨fun x => ?_, List.pairwise_cons.mpr ⟨fun x hx => ?_, hincreasing⟩⟩
      · rw [List.mem_cons, List.mem_cons, hmem]
      · refine lt_of_le_of_ne (hle x ((hmem x).mp hx)) ?_
        rintro rfl
        -- The first of the rest would be smaller than a vertex that is not greater than any.
        cases rest with
        | nil => cases hx
        | cons z rest =>
          have hne : y ≠ z := by
            rintro rfl
            exact hhead rfl
          have hmore := (List.mem_cons.mp hx).resolve_left hne
          have hzy := (List.pairwise_cons.mp hincreasing).1 y hmore
          exact absurd (hle z ((hmem z).mp List.mem_cons_self)) (not_le.mpr hzy)

@[simp] theorem mem_sorted {xs : List String} {x : String} : x ∈ sorted xs ↔ x ∈ xs := by
  rw [sorted, (dropRepeats (List.pairwise_mergeSort' (· ≤ ·) xs)).1, List.mem_mergeSort]

theorem sorted_increasing (xs : List String) : (sorted xs).Pairwise (· < ·) :=
  (dropRepeats (List.pairwise_mergeSort' (· ≤ ·) xs)).2

theorem mem_successors_iff {edges : List Edge} {v w : String} :
    w ∈ successors edges v ↔ Joined edges v w := by
  rw [successors, mem_sorted, List.mem_map]
  constructor
  · rintro ⟨⟨source, target⟩, hedge, rfl⟩
    rw [List.mem_filter, beq_iff_eq] at hedge
    obtain ⟨hmem, rfl⟩ := hedge
    exact hmem
  · intro hjoined
    exact ⟨⟨v, w⟩, List.mem_filter.mpr ⟨hjoined, by simp⟩, rfl⟩

/-! ### Ways from one vertex back to it -/

/-- The search from the end `v` of a way finds the continuations along new vertices that lead to the
start, as far as the fuel goes. -/
theorem mem_closing_iff {edges : List Edge} {start : String} {fuel : Nat} {v : String}
    {before c : List String} :
    c ∈ closing edges start fuel (v :: before) ↔
      ∃ more, c = (v :: before).reverse ++ more ∧ (v :: (more ++ [start])).IsChain (Joined edges) ∧
        more.Nodup ∧ (∀ x ∈ more, x ≠ start ∧ x ∉ v :: before) ∧ more.length < fuel := by
  induction fuel generalizing v before with
  | zero => simp [closing]
  | succ fuel ih =>
    rw [closing, List.mem_flatMap, List.headD_cons]
    constructor
    · rintro ⟨next, hnext, hc⟩
      rw [mem_successors_iff] at hnext
      split at hc
      · next hstart =>
        rw [beq_iff_eq] at hstart
        subst next
        rw [List.mem_singleton] at hc
        exact ⟨[], by simpa using hc, by simpa using hnext, List.nodup_nil, by simp, by simp⟩
      · next hstart =>
        split at hc
        · cases hc
        · next hseen =>
          rw [beq_iff_eq] at hstart
          rw [List.contains_iff_mem] at hseen
          obtain ⟨more, rfl, hchain, hnodup, hnew, hlength⟩ := ih.mp hc
          refine ⟨next :: more, by simp, ?_, ?_, ?_, by simpa using hlength⟩
          · rw [List.cons_append, List.isChain_cons_cons]
            exact ⟨hnext, hchain⟩
          · exact List.nodup_cons.mpr ⟨fun hmem => (hnew next hmem).2 List.mem_cons_self, hnodup⟩
          · intro x hx
            rcases List.mem_cons.mp hx with rfl | hx
            · exact ⟨hstart, hseen⟩
            · exact ⟨(hnew x hx).1, fun hmem => (hnew x hx).2 (List.mem_cons_of_mem _ hmem)⟩
    · rintro ⟨more, rfl, hchain, hnodup, hnew, hlength⟩
      cases more with
      | nil =>
        refine ⟨start, mem_successors_iff.mpr ?_, by simp⟩
        simpa using hchain
      | cons next more =>
        rw [List.cons_append, List.isChain_cons_cons] at hchain
        obtain ⟨hstart, hseen⟩ := hnew next List.mem_cons_self
        obtain ⟨hnotin, hnodup⟩ := List.nodup_cons.mp hnodup
        refine ⟨next, mem_successors_iff.mpr hchain.1, ?_⟩
        rw [if_neg (by simpa using hstart), if_neg (by rwa [List.contains_iff_mem])]
        refine ih.mpr ⟨more, by simp, hchain.2, hnodup, fun x hx => ?_, by simpa using hlength⟩
        obtain ⟨hxstart, hxseen⟩ := hnew x (List.mem_cons_of_mem _ hx)
        refine ⟨hxstart, fun hmem => ?_⟩
        rcases List.mem_cons.mp hmem with rfl | hmem
        · exact hnotin hx
        · exact hxseen hmem

/-- If no vertex is smaller than the start, the cycles are found in lexicographic order. -/
theorem closing_increasing {edges : List Edge} {start : String}
    (hsmallest : ∀ e ∈ edges, start ≤ e.target) (fuel : Nat) (v : String)
    (before : List String) : (closing edges start fuel (v :: before)).Pairwise (· < ·) := by
  induction fuel generalizing v before with
  | zero => exact List.Pairwise.nil
  | succ fuel ih =>
    rw [closing, List.headD_cons]
    refine List.pairwise_flatMap.mpr ⟨fun next _ => ?_, ?_⟩
    · split
      · exact List.pairwise_singleton _ _
      · split
        · exact List.Pairwise.nil
        · exact ih next (v :: before)
    · refine (sorted_increasing _).imp_of_mem fun {a b} ha hb hlt x hx y hy => ?_
      have hstart : start ≤ a := hsmallest _ (mem_successors_iff.mp ha)
      have hb : ¬ (b == start) = true := by
        rw [beq_iff_eq]
        exact (hstart.trans_lt hlt).ne'
      rw [if_neg hb] at hy
      -- Each cycle on this side goes on with `b`.
      obtain ⟨more, rfl⟩ : ∃ more, y = (v :: before).reverse ++ b :: more := by
        split at hy
        · cases hy
        · obtain ⟨more, rfl, _⟩ := mem_closing_iff.mp hy
          exact ⟨more, by simp⟩
      split at hx
      · rw [List.mem_singleton.mp hx]
        conv_lhs => rw [← List.append_nil (v :: before).reverse]
        exact List.append_left_lt (List.nil_lt_cons b more)
      · split at hx
        · cases hx
        · obtain ⟨more', rfl, _⟩ := mem_closing_iff.mp hx
          rw [List.reverse_cons (a := a), List.append_assoc]
          exact List.append_left_lt (List.cons_lt_cons_iff.mpr (Or.inl hlt))

/-! ### Vertices that lead to the start -/

theorem subset_reaching (edges : List Edge) (fuel : Nat) (found : List String) :
    found ⊆ reaching edges fuel found := by
  induction fuel generalizing found with
  | zero => exact List.Subset.refl _
  | succ fuel ih =>
    rw [reaching]
    split
    · exact List.Subset.refl _
    · exact List.Subset.trans (List.subset_append_left _ _) (ih _)

/-- With fuel for every edge from outside, the search backwards ends at a set of vertices that no
edge enters from outside. -/
theorem reaching_closed {edges : List Edge} {fuel : Nat} {found : List String}
    (hfuel : (edges.filter fun e => !found.contains e.source).length < fuel) {e : Edge}
    (hedge : e ∈ edges) (htarget : e.target ∈ reaching edges fuel found) :
    e.source ∈ reaching edges fuel found := by
  induction fuel generalizing found with
  | zero => omega
  | succ fuel ih =>
    rw [reaching] at htarget ⊢
    generalize hmore : edges.filter (fun e => found.contains e.target && !found.contains e.source) =
      more at htarget ⊢
    cases more with
    | nil =>
      by_contra hsource
      have hmem : e ∈ edges.filter fun e =>
          found.contains e.target && !found.contains e.source := by
        rw [List.mem_filter]
        exact ⟨hedge, by simpa using ⟨htarget, hsource⟩⟩
      rw [hmore] at hmem
      cases hmem
    | cons e' rest =>
      refine ih ?_ htarget
      -- The source of an edge that was added is inside from now on.
      obtain ⟨hin, hnew⟩ := List.mem_filter.mp (hmore ▸ List.mem_cons_self (a := e') (l := rest))
      rw [Bool.and_eq_true] at hnew
      generalize hfound : found ++ sorted ((e' :: rest).map (·.source)) = found'
      have hkept : edges.filter (fun e => !found'.contains e.source) =
          (edges.filter fun e => !found.contains e.source).filter
            fun e => !found'.contains e.source := by
        rw [List.filter_filter]
        refine List.filter_congr fun x _ => ?_
        rw [← hfound]
        by_cases hx : x.source ∈ found <;> simp [hx]
      have hfewer : ((edges.filter fun e => !found.contains e.source).filter
          fun e => !found'.contains e.source).length <
            (edges.filter fun e => !found.contains e.source).length := by
        rw [List.length_filter_lt_length_iff_exists]
        refine ⟨e', List.mem_filter.mpr ⟨hin, hnew.2⟩, ?_⟩
        simp [← hfound]
      rw [hkept]
      omega

/-! ### Cycles from their smallest vertex on -/

/-- Among edges are those between vertices that are not smaller than the start and lead back to it
over such vertices, and no vertex is smaller. -/
private structure IsWithin (edges : List Edge) (start : String) (within : List Edge) : Prop where
  subset : within ⊆ edges
  notSmaller : ∀ e ∈ within, start ≤ e.target
  leadsBack {v : String} {rest : List String} (hchain : (v :: (rest ++ [start])).IsChain
    fun a b => Joined edges a b ∧ start ≤ a ∧ start ≤ b) :
    (v :: (rest ++ [start])).IsChain (Joined within)

private theorem exists_isWithin (edges : List Edge) (start : String) :
    ∃ within, IsWithin edges start within ∧
      startingAt edges start = closing within start (within.length + 1) [start] := by
  generalize habove : (edges.filter fun e => start ≤ e.source && start ≤ e.target) = above
  generalize hback : reaching above (above.length + 1) [start] = back
  have hmem (e : Edge) : e ∈ above ↔ e ∈ edges ∧ start ≤ e.source ∧ start ≤ e.target := by
    rw [← habove, List.mem_filter]
    simp
  have hclosed {e : Edge} (he : e ∈ above) (htarget : e.target ∈ back) : e.source ∈ back := by
    rw [← hback] at htarget ⊢
    refine reaching_closed ?_ he htarget
    exact Nat.lt_succ_of_le (List.length_filter_le _ _)
  have hstart : start ∈ back := by
    rw [← hback]
    exact subset_reaching above _ _ List.mem_cons_self
  refine ⟨above.filter fun e => back.contains e.source && back.contains e.target,
    ⟨fun e he => ?_, fun e he => ?_, fun {v rest} hchain => ?_⟩, ?_⟩
  · exact ((hmem e).mp (List.mem_of_mem_filter he)).1
  · exact ((hmem e).mp (List.mem_of_mem_filter he)).2.2
  · have hinside := hchain.backwards_induction (· ∈ back) _
      (fun a b hab hb => hclosed ((hmem ⟨a, b⟩).mpr hab) hb) (fun _ => by simpa using hstart)
    refine hchain.imp_of_mem_imp fun a b ha hb hab => ?_
    refine List.mem_filter.mpr ⟨(hmem ⟨a, b⟩).mpr hab, ?_⟩
    simpa using ⟨hinside a ha, hinside b hb⟩
  · rw [startingAt, habove, hback]

private theorem mem_targets_of_isChain {edges : List Edge} {v : String} {way : List String}
    (hchain : (v :: way).IsChain (Joined edges)) : ∀ x ∈ way, x ∈ edges.map (·.target) := by
  induction way generalizing v with
  | nil => simp
  | cons w way ih =>
    rw [List.isChain_cons_cons] at hchain
    intro x hx
    rcases List.mem_cons.mp hx with rfl | hx
    · exact List.mem_map.mpr ⟨_, hchain.1, rfl⟩
    · exact ih hchain.2 x hx

/-- Elementary cycles are found from their smallest vertices. -/
theorem mem_startingAt_iff {edges : List Edge} {start : String} {c : List String} :
    c ∈ startingAt edges start ↔
      IsElementary (Joined edges) c ∧ StartsSmallest c ∧ c.head? = some start := by
  obtain ⟨within, hwithin, heq⟩ := exists_isWithin edges start
  rw [heq, mem_closing_iff]
  constructor
  · rintro ⟨rest, rfl, hchain, hnodup, hnew, -⟩
    refine ⟨⟨List.nodup_cons.mpr ⟨fun hmem => (hnew start hmem).1 rfl, hnodup⟩, ?_⟩, ?_, rfl⟩
    · exact hchain.imp fun a b hab => hwithin.subset hab
    · intro x hx
      have hall := hchain.cons_induction (start ≤ ·) _
        (fun a b hab _ => hwithin.notSmaller _ hab) le_rfl
      exact hall x (List.mem_append_left _ hx)
  · rintro ⟨hcycle, hsmallest, hhead⟩
    cases c with
    | nil => cases hhead
    | cons v rest =>
      cases hhead
      obtain ⟨hnodup, hchain⟩ := hcycle
      rw [startsSmallest_cons] at hsmallest
      have hle : ∀ x ∈ start :: (rest ++ [start]), start ≤ x := by
        intro x hx
        rw [List.mem_cons, List.mem_append, List.mem_singleton] at hx
        rcases hx with rfl | hx | rfl
        · exact le_rfl
        · exact hsmallest x hx
        · exact le_rfl
      have hchain' : (start :: (rest ++ [start])).IsChain (Joined within) :=
        hwithin.leadsBack (hchain.imp_of_mem_imp fun a b ha hb hab => ⟨hab, hle a ha, hle b hb⟩)
      rw [List.nodup_cons] at hnodup
      refine ⟨rest, rfl, hchain', hnodup.2, fun x hx => ?_, ?_⟩
      · have hne : x ≠ start := by
          rintro rfl
          exact hnodup.1 hx
        exact ⟨hne, by simpa using hne⟩
      · -- The edges of the way have different targets.
        have htargets : rest ⊆ within.map (·.target) := fun x hx =>
          mem_targets_of_isChain hchain' x (List.mem_append_left _ hx)
        have hlength := (List.Nodup.subperm hnodup.2 htargets).length_le
        rw [List.length_map] at hlength
        omega

theorem startingAt_increasing (edges : List Edge) (start : String) :
    (startingAt edges start).Pairwise (· < ·) := by
  obtain ⟨within, hwithin, heq⟩ := exists_isWithin edges start
  rw [heq]
  exact closing_increasing hwithin.notSmaller _ _ _

/-! ### All cycles -/

/-- The search finds every elementary cycle, in the writing from its smallest vertex on. -/
theorem mem_all_iff {edges : List Edge} {c : List String} :
    c ∈ all edges ↔ IsElementary (Joined edges) c ∧ StartsSmallest c := by
  rw [all, List.mem_flatMap]
  simp only [mem_startingAt_iff, mem_sorted]
  constructor
  · rintro ⟨start, -, hcycle, hsmallest, -⟩
    exact ⟨hcycle, hsmallest⟩
  · rintro ⟨hcycle, hsmallest⟩
    cases c with
    | nil => exact hcycle.elim
    | cons start rest =>
      obtain ⟨next, hjoined⟩ := IsElementary.exists_next hcycle
      exact ⟨start, List.mem_map.mpr ⟨_, hjoined, rfl⟩, hcycle, hsmallest, rfl⟩

/-- The search lists the cycles in lexicographic order, each once. -/
theorem all_increasing (edges : List Edge) : (all edges).Pairwise (· < ·) := by
  refine List.pairwise_flatMap.mpr ⟨fun start _ => startingAt_increasing edges start, ?_⟩
  refine (sorted_increasing _).imp fun {a b} hlt x hx y hy => ?_
  obtain ⟨-, -, hx⟩ := mem_startingAt_iff.mp hx
  obtain ⟨-, -, hy⟩ := mem_startingAt_iff.mp hy
  obtain ⟨rest, rfl⟩ := List.head?_eq_some_iff.mp hx
  obtain ⟨rest', rfl⟩ := List.head?_eq_some_iff.mp hy
  exact List.cons_lt_cons_iff.mpr (Or.inl hlt)

/-- A list of all elementary cycles of a relation. Each is listed once, in the writing from its
smallest vertex on, and the list is in lexicographic order. -/
structure ListsCycles (R : String → String → Prop) (cycles : List (List String)) : Prop where
  elementary : ∀ c ∈ cycles, IsElementary R c ∧ StartsSmallest c
  complete : ∀ c, IsElementary R c → ∃! c', c' ∈ cycles ∧ c' ~r c
  distinct : cycles.Pairwise fun c c' => ¬ c ~r c'
  increasing : cycles.Pairwise (· < ·)

theorem all_listsCycles (edges : List Edge) : ListsCycles (Joined edges) (all edges) := by
  refine ⟨fun c hc => mem_all_iff.mp hc, fun c hc => ?_, ?_, all_increasing edges⟩
  · obtain ⟨c', hrotated, hsmallest⟩ := exists_isRotated_startsSmallest c
    have hc' := hc.isRotated hrotated
    refine ⟨c', ⟨mem_all_iff.mpr ⟨hc', hsmallest⟩, hrotated.symm⟩, fun c'' h => ?_⟩
    obtain ⟨hmem, hrotated'⟩ := h
    obtain ⟨hc'', hsmallest'⟩ := mem_all_iff.mp hmem
    exact eq_of_isRotated hc''.nodup (hrotated'.trans hrotated) hsmallest' hsmallest
  · refine (all_increasing edges).imp_of_mem fun {c c'} hc hc' hlt hrotated => ?_
    obtain ⟨helementary, hsmallest⟩ := mem_all_iff.mp hc
    have heq := eq_of_isRotated helementary.nodup hrotated hsmallest (mem_all_iff.mp hc').2
    exact absurd hlt (heq ▸ List.lt_irrefl c)

/-- No cycle is listed if and only if no vertex leads back to itself. -/
theorem ListsCycles.eq_nil_iff {R : String → String → Prop} {cycles : List (List String)}
    (h : ListsCycles R cycles) : cycles = [] ↔ ∀ v, ¬ Relation.TransGen R v v := by
  constructor
  · rintro rfl v hv
    obtain ⟨c, hc⟩ := exists_isElementary_of_transGen hv
    obtain ⟨c', ⟨hmem, -⟩, -⟩ := h.complete c hc
    cases hmem
  · intro hnone
    cases cycles with
    | nil => rfl
    | cons c rest =>
      obtain ⟨hc, -⟩ := h.elementary c List.mem_cons_self
      cases c with
      | nil => exact hc.elim
      | cons v more => exact absurd (IsElementary.transGen hc) (hnone v)

/-- The cycles depend only on which edges there are, not on their order or on repetitions. -/
theorem all_congr {edges edges' : List Edge} (hiff : ∀ e, e ∈ edges ↔ e ∈ edges') :
    all edges = all edges' := by
  refine List.Pairwise.eq_of_mem_iff (all_increasing edges) (all_increasing edges') fun c => ?_
  have hjoined (v w : String) : Joined edges v w ↔ Joined edges' v w := hiff ⟨v, w⟩
  rw [mem_all_iff, mem_all_iff, IsElementary.congr hjoined]

/-! ### Any search for cycles -/

/-- Elementary cycles of a relation, each once, in any order and from any of its vertices on. -/
structure FindsCycles (R : String → String → Prop) (found : List (List String)) : Prop where
  elementary : ∀ c ∈ found, IsElementary R c
  complete : ∀ c, IsElementary R c → ∃ c' ∈ found, c' ~r c
  distinct : found.Pairwise fun c c' => ¬ c ~r c'

/-- A cycle written from its smallest vertex on. -/
def fromSmallest (c : List String) : List String :=
  match c.min? with
  | none => []
  | some v => c.rotate (c.idxOf v)

theorem isRotated_fromSmallest (c : List String) : c ~r fromSmallest c := by
  unfold fromSmallest
  split
  · next hnone => rw [List.min?_eq_none_iff.mp hnone]
  · exact ⟨_, rfl⟩

theorem startsSmallest_fromSmallest (c : List String) : StartsSmallest (fromSmallest c) := by
  unfold fromSmallest
  split
  · trivial
  · next v hmin =>
    obtain ⟨hv, hle⟩ := List.min?_eq_some_iff.mp hmin
    have hindex := List.idxOf_lt_length_of_mem hv
    have hrotate : c.rotate (c.idxOf v) =
        v :: (c.drop (c.idxOf v + 1) ++ c.take (c.idxOf v)) := by
      rw [List.rotate_eq_drop_append_take hindex.le, List.drop_eq_getElem_cons hindex,
        List.getElem_idxOf, List.cons_append]
    rw [hrotate, startsSmallest_cons]
    intro x hx
    rw [List.mem_append] at hx
    exact hle x (hx.elim List.mem_of_mem_drop List.mem_of_mem_take)

variable {R : String → String → Prop} {cycles found : List (List String)}

theorem ListsCycles.mem_iff (h : ListsCycles R cycles) {c : List String} :
    c ∈ cycles ↔ IsElementary R c ∧ StartsSmallest c := by
  refine ⟨h.elementary c, fun ⟨helementary, hsmallest⟩ => ?_⟩
  obtain ⟨c', ⟨hmem, hrotated⟩, -⟩ := h.complete c helementary
  obtain ⟨helementary', hsmallest'⟩ := h.elementary c' hmem
  rwa [← eq_of_isRotated helementary'.nodup hrotated hsmallest' hsmallest]

/-- Whatever order a search finds the cycles in, and from whichever vertices it writes them, their
writings from the smallest vertices on in lexicographic order are the same. -/
theorem ListsCycles.mergeSort_fromSmallest (h : ListsCycles R cycles)
    (hfound : FindsCycles R found) :
    ((found.map fromSmallest).mergeSort fun a b => a ≤ b) = cycles := by
  have hmem (c : List String) : c ∈ found.map fromSmallest ↔ c ∈ cycles := by
    rw [h.mem_iff, List.mem_map]
    constructor
    · rintro ⟨c, hc, rfl⟩
      have helementary := hfound.elementary c hc
      exact ⟨helementary.isRotated (isRotated_fromSmallest c), startsSmallest_fromSmallest c⟩
    · rintro ⟨hc, hsmallest⟩
      obtain ⟨c', hc', hrotated⟩ := hfound.complete c hc
      have hrotated' := hrotated.symm.trans (isRotated_fromSmallest c')
      have hsmallest' := startsSmallest_fromSmallest c'
      exact ⟨c', hc', (eq_of_isRotated hc.nodup hrotated' hsmallest hsmallest').symm⟩
  have hnodup : (found.map fromSmallest).Nodup := by
    refine List.pairwise_map.mpr (hfound.distinct.imp fun {c c'} hnot heq => hnot ?_)
    exact ((isRotated_fromSmallest c).trans (heq ▸ List.IsRotated.refl _)).trans
      (isRotated_fromSmallest c').symm
  have hsorted := List.pairwise_mergeSort' (· ≤ ·) (found.map fromSmallest)
  refine List.Pairwise.eq_of_mem_iff (r := (· < ·)) ?_ h.increasing fun c => ?_
  · refine (hsorted.and (((List.mergeSort_perm _ _).nodup_iff).mpr hnodup)).imp fun {a b} h => ?_
    exact lt_of_le_of_ne h.1 h.2
  · rw [List.mem_mergeSort, hmem]

end BusinessModel.Cycle
