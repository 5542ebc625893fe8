import BusinessModel.Proofs.Document.Parsing

/-!
Building the tree of a document from a loaded value without aliases. It succeeds exactly if there are
not too many values and none lies too deep, and the tree is that of the value. Otherwise the first
value in preorder that is one too many or too deep decides on the refusal; the number of values is
looked at first.
-/

namespace BusinessModel

namespace Yaml.Loaded

mutual

/-- The value holds no aliases. -/
def isTree : Loaded → Bool
  | .scalar _ => true
  | .sequence _ _ items => areItemsTrees items
  | .mapping _ _ entries => areEntriesTrees entries
  | .aliasOf _ => false

/-- The items of a sequence hold no aliases. -/
def areItemsTrees : List (Option Mark × Loaded) → Bool
  | [] => true
  | (_, v) :: rest => v.isTree && areItemsTrees rest

/-- The values of a mapping hold no aliases. -/
def areEntriesTrees : List (Key × Option (Mark × Mark) × Loaded) → Bool
  | [] => true
  | (_, _, v) :: rest => v.isTree && areEntriesTrees rest

end

/-- The value is null. -/
def isNull : Loaded → Bool
  | .scalar { value := .null, .. } => true
  | _ => false

mutual

/-- How deep a value and those inside it lie below a root, in preorder; the value itself lies at the
given depth. -/
def depths (depth : Nat) : Loaded → List Nat
  | .scalar _ => [depth]
  | .sequence _ _ items => depth :: depthsOfItems (depth + 1) items
  | .mapping _ _ entries => depth :: depthsOfEntries (depth + 1) entries
  | .aliasOf _ => [depth]

/-- How deep the items of a sequence and the values inside them lie. -/
def depthsOfItems (depth : Nat) : List (Option Mark × Loaded) → List Nat
  | [] => []
  | (_, v) :: rest => v.depths depth ++ depthsOfItems depth rest

/-- How deep the values of a mapping and those inside them lie. -/
def depthsOfEntries (depth : Nat) : List (Key × Option (Mark × Mark) × Loaded) → List Nat
  | [] => []
  | (_, _, v) :: rest => v.depths depth ++ depthsOfEntries depth rest

end

mutual

/-- The tree of a value: the same scalars, items and entries in the same order, the keys as texts.
An alias counts as nothing. -/
def content : Loaded → Content
  | .scalar d => .scalar d.value
  | .sequence _ _ items => .sequence (contentOfItems items)
  | .mapping _ _ entries => .mapping (contentOfEntries entries)
  | .aliasOf _ => .scalar .null

/-- The trees of the items of a sequence. -/
def contentOfItems : List (Option Mark × Loaded) → List Content
  | [] => []
  | (_, v) :: rest => v.content :: contentOfItems rest

/-- The trees of the values of a mapping, with the texts of their keys. -/
def contentOfEntries : List (Key × Option (Mark × Mark) × Loaded) → List (String × Content)
  | [] => []
  | (key, _, v) :: rest => (key.label, v.content) :: contentOfEntries rest

end

/-- There are no more values than allowed, the value and those inside it, and none lies deeper. -/
def Fits (v : Loaded) (maxNodes maxDepth : Int) : Prop :=
  ((v.depths 0).length : Int) ≤ maxNodes ∧ ∀ depth ∈ v.depths 0, (depth : Int) ≤ maxDepth

instance (v : Loaded) (maxNodes maxDepth : Int) : Decidable (v.Fits maxNodes maxDepth) :=
  inferInstanceAs (Decidable (_ ∧ _))

/-- Why a value that does not fit is refused: for the number of values if in preorder the first one
too many comes no later than the first one too deep, and for the depth otherwise. -/
def refusal (v : Loaded) (maxNodes maxDepth : Int) : Refusal :=
  if maxNodes ≤ (v.depths 0).findIdx fun depth : Nat => (depth : Int) > maxDepth then
    .nodeCount maxNodes
  else .depth maxDepth

end Yaml.Loaded

open Yaml

namespace Layout

/-! ### Values in preorder -/

/-- The refusal that values at the depths lead to, in their order, after `count` others. -/
def refusal? (l : Layout) : Nat → List Nat → Option Refusal
  | _, [] => none
  | count, depth :: rest =>
    if (count : Int) + 1 > l.maxNodes then some (.nodeCount l.maxNodes)
    else if depth > l.maxDepth then some (.depth l.maxDepth)
    else l.refusal? (count + 1) rest

theorem refusal?_append (l : Layout) (count : Nat) (depths more : List Nat) :
    l.refusal? count (depths ++ more) =
      (l.refusal? count depths).or (l.refusal? (count + depths.length) more) := by
  induction depths generalizing count with
  | nil => rfl
  | cons depth rest ih =>
    rw [List.cons_append, refusal?, refusal?, ih]
    split
    · rfl
    · split
      · rfl
      · rw [List.length_cons, Nat.add_right_comm, Nat.add_assoc]

/-- Values are refused unless they are few enough and none lies too deep. -/
theorem refusal?_eq_none_iff (l : Layout) (count : Nat) (depths : List Nat) :
    l.refusal? count depths = none ↔
      (depths = [] ∨ (count + depths.length : Int) ≤ l.maxNodes) ∧
        ∀ depth ∈ depths, (depth : Int) ≤ l.maxDepth := by
  induction depths generalizing count with
  | nil => simp [refusal?]
  | cons depth rest ih =>
    have hrest : (rest = [] ∨ ((count + 1 : Nat) + rest.length : Int) ≤ l.maxNodes) ∧
        (count : Int) + 1 ≤ l.maxNodes ↔
          (count + (depth :: rest).length : Int) ≤ l.maxNodes := by
      rw [List.length_cons]
      cases rest with
      | nil => simp
      | cons next rest =>
        simp only [reduceCtorEq, false_or, List.length_cons]
        omega
    rw [refusal?]
    split
    · next hcount =>
      refine iff_of_false (by simp) fun h => ?_
      have := (hrest.mpr (h.1.resolve_left (by simp))).2
      omega
    · next hcount =>
      split
      · next hdepth =>
        refine iff_of_false (by simp) fun h => ?_
        have := h.2 depth List.mem_cons_self
        omega
      · next hdepth =>
        rw [ih, List.forall_mem_cons, ← hrest]
        constructor
        · rintro ⟨hnodes, hdepths⟩
          exact ⟨.inr ⟨hnodes, by omega⟩, by omega, hdepths⟩
        · rintro ⟨hnodes, _, hdepths⟩
          exact ⟨(hnodes.resolve_left (by simp)).1, hdepths⟩

/-- If values are refused, it is for their number if the first one too many comes no later than the
first one too deep. -/
theorem refusal?_eq_some {l : Layout} {count : Nat} {depths : List Nat}
    (h : l.refusal? count depths ≠ none) :
    l.refusal? count depths =
      some (if l.maxNodes ≤ count + depths.findIdx (fun d : Nat => (d : Int) > l.maxDepth) then
        .nodeCount l.maxNodes else .depth l.maxDepth) := by
  induction depths generalizing count with
  | nil => exact absurd rfl h
  | cons depth rest ih =>
    rw [refusal?] at h ⊢
    split
    · next hcount =>
      rw [if_pos (by omega)]
    · next hcount =>
      rw [if_neg hcount] at h
      split
      · next hdepth =>
        rw [List.findIdx_cons, decide_eq_true hdepth, cond_true, if_neg (by omega)]
      · next hdepth =>
        rw [if_neg hdepth] at h
        have hshift (n : Nat) : ((count + 1 : Nat) : Int) + n = count + (n + 1 : Nat) := by omega
        rw [ih h, List.findIdx_cons, decide_eq_false hdepth, cond_false, hshift]

/-! ### Steps of building -/

/-- The step comes to values at the depths: it is refused as they are, and otherwise it counts them
and has the result. -/
structure Counts {α : Type} (l : Layout) (depths : List Nat) (b : Build α) (a : α) : Prop where
  refused : ∀ s r, l.refusal? s.count depths = some r → b.run s = .error r
  passed : ∀ s, l.refusal? s.count depths = none →
    ∃ s', b.run s = .ok (a, s') ∧ s'.count = s.count + depths.length

variable {l : Layout} {α β : Type}

theorem Counts.pure (a : α) : l.Counts [] (Pure.pure a) a := by
  constructor
  · intro s r h
    cases h
  · intro s _
    exact ⟨s, rfl, rfl⟩

theorem Counts.bind {depths more : List Nat} {b : Build α} {a : α} {f : α → Build β} {c : β}
    (hb : l.Counts depths b a) (hf : l.Counts more (f a) c) :
    l.Counts (depths ++ more) (b >>= f) c := by
  constructor
  · intro s r h
    rw [refusal?_append] at h
    rw [StateT.run_bind]
    cases hfirst : l.refusal? s.count depths with
    | some r' =>
      rw [hfirst] at h
      cases h
      rw [hb.refused s _ hfirst]
      rfl
    | none =>
      rw [hfirst] at h
      obtain ⟨s', hrun, hcount⟩ := hb.passed s hfirst
      rw [hrun]
      exact hf.refused s' r (by rw [hcount]; exact h)
  · intro s h
    rw [refusal?_append, Option.or_eq_none_iff] at h
    obtain ⟨s', hrun, hcount⟩ := hb.passed s h.1
    obtain ⟨s'', hrun', hcount'⟩ := hf.passed s' (by rw [hcount]; exact h.2)
    refine ⟨s'', ?_, by rw [hcount', hcount, List.length_append, Nat.add_assoc]⟩
    rw [StateT.run_bind, hrun]
    exact hrun'

/-- Recording a position counts nothing. -/
theorem counts_record (l : Layout) (path : String) (place fallback : Option Mark) :
    l.Counts [] (l.record path place fallback) () := by
  unfold record
  extract_lets place?
  cases place? with
  | none => exact .pure ()
  | some m =>
    constructor
    · intro s r h
      cases h
    · intro s _
      exact ⟨_, rfl, rfl⟩

/-! ### The tree of a value -/

/-- What an alias stands for; other values stand for themselves. -/
def resolve (l : Layout) : Loaded → Loaded
  | .aliasOf n => (l.anchored.lookup n).getD (.aliasOf n)
  | v => v

/-- The tree of a value at `path` whose parts are built by `convert`. -/
def buildParts (l : Layout) (convert : String → Loaded → Build Content) (path : String) :
    Loaded → Build Content
  | .scalar d => return .scalar d.value
  | .mapping _ _ entries => return .mapping (← l.buildEntries convert path [] entries)
  | .sequence _ _ items => return .sequence (← l.buildItems convert path 0 [] items)
  | .aliasOf _ => return .scalar .null

/-- A step to a value counts it, looks at the number of values and then at the depth, and goes on to
its parts. -/
theorem run_build (l : Layout) (room : Nat) (path : String) (v : Loaded) (s : Building) :
    (l.build room path v).run s =
      if (s.count : Int) + 1 > l.maxNodes then .error (.nodeCount l.maxNodes)
      else match room with
        | 0 => .error (.depth l.maxDepth)
        | room + 1 =>
          (l.buildParts (l.build room) path (l.resolve v)).run { s with count := s.count + 1 } := by
  unfold build
  by_cases hcount : (s.count : Int) + 1 > l.maxNodes
  · have hcount' : ((s.count + 1 : Nat) : Int) > l.maxNodes := by omega
    rw [if_pos hcount]
    simp only [StateT.run_bind, StateT.run_modify, StateT.run_get, pure_bind, if_pos hcount']
    rfl
  · have hcount' : ¬ ((s.count + 1 : Nat) : Int) > l.maxNodes := by omega
    rw [if_neg hcount]
    simp only [StateT.run_bind, StateT.run_modify, StateT.run_get, pure_bind, if_neg hcount']
    cases room with
    | zero => rfl
    | succ room =>
      cases v with
      | aliasOf n =>
        dsimp only [resolve]
        cases (l.anchored.lookup n).getD (.aliasOf n) <;> rfl
      | _ => rfl

/-- The levels still allowed at a depth, and one more. -/
def room (l : Layout) (depth : Nat) : Nat := (l.maxDepth + 1 - depth).toNat

/-- The step to a value comes to the value and then to its parts. -/
theorem counts_value {v : Loaded} {depth : Nat} {inner : List Nat} {path : String} {c : Content}
    (hinner : l.Counts inner (l.buildParts (l.build (l.room (depth + 1))) path (l.resolve v)) c) :
    l.Counts (depth :: inner) (l.build (l.room depth) path v) c := by
  constructor
  · intro s r h
    rw [run_build]
    rw [refusal?] at h
    split at h
    · next hcount =>
      cases h
      rw [if_pos hcount]
    · next hcount =>
      rw [if_neg hcount]
      split at h
      · next hdepth =>
        cases h
        have hroom : l.room depth = 0 := by
          unfold room
          omega
        rw [hroom]
      · next hdepth =>
        have hroom : l.room depth = l.room (depth + 1) + 1 := by
          unfold room
          omega
        rw [hroom]
        exact hinner.refused _ r h
  · intro s h
    rw [run_build]
    rw [refusal?] at h
    split at h
    · cases h
    · next hcount =>
      split at h
      · cases h
      · next hdepth =>
        have hroom : l.room depth = l.room (depth + 1) + 1 := by
          unfold room
          omega
        obtain ⟨s', hrun, hcount'⟩ := hinner.passed { s with count := s.count + 1 } h
        rw [if_neg hcount, hroom]
        refine ⟨s', hrun, hcount'.trans ?_⟩
        rw [List.length_cons, Nat.add_right_comm, Nat.add_assoc]

-- The induction follows the value: a value, the items of a sequence, the entries of a mapping.
mutual

/-- Building the tree of a value comes to its values in preorder. -/
theorem counts_build : ∀ v : Loaded, v.isTree = true → ∀ (depth : Nat) (path : String),
    l.Counts (v.depths depth) (l.build (l.room depth) path v) v.content
  | .scalar d, _, depth, path => counts_value (.pure _)
  | .sequence anchor place items, hv, depth, path => by
    have hitems := counts_buildItems items hv (depth + 1) path 0 []
    have hbuilt := hitems.bind (f := fun cs => Pure.pure (Content.sequence cs)) (.pure _)
    rw [List.append_nil] at hbuilt
    exact counts_value hbuilt
  | .mapping anchor place entries, hv, depth, path => by
    have hentries := counts_buildEntries entries hv (depth + 1) path []
    have hbuilt := hentries.bind (f := fun es => Pure.pure (Content.mapping es)) (.pure _)
    rw [List.append_nil] at hbuilt
    exact counts_value hbuilt
  | .aliasOf n, hv, _, _ => nomatch hv

private theorem counts_buildItems : ∀ items, Loaded.areItemsTrees items = true →
    ∀ (depth : Nat) (path : String) (n : Nat) (seen : List Content),
      l.Counts (Loaded.depthsOfItems depth items)
        (l.buildItems (l.build (l.room depth)) path n seen items)
        (seen.reverse ++ Loaded.contentOfItems items)
  | [], _, depth, path, n, seen => by
    rw [Loaded.contentOfItems, List.append_nil]
    exact .pure _
  | (place, v) :: rest, hitems, depth, path, n, seen => by
    obtain ⟨hv, hrest⟩ := Bool.and_eq_true_iff.mp hitems
    have hmore := counts_buildItems rest hrest depth path (n + 1) (v.content :: seen)
    rw [List.reverse_cons, List.append_assoc, List.singleton_append] at hmore
    exact (l.counts_record ..).bind ((counts_build v hv depth _).bind hmore)

private theorem counts_buildEntries : ∀ entries, Loaded.areEntriesTrees entries = true →
    ∀ (depth : Nat) (path : String) (seen : List (String × Content)),
      l.Counts (Loaded.depthsOfEntries depth entries)
        (l.buildEntries (l.build (l.room depth)) path seen entries)
        (seen.reverse ++ Loaded.contentOfEntries entries)
  | [], _, depth, path, seen => by
    rw [Loaded.contentOfEntries, List.append_nil]
    exact .pure _
  | (key, places, v) :: rest, hentries, depth, path, seen => by
    obtain ⟨hv, hrest⟩ := Bool.and_eq_true_iff.mp hentries
    have hmore := counts_buildEntries rest hrest depth path ((key.label, v.content) :: seen)
    rw [List.reverse_cons, List.append_assoc, List.singleton_append] at hmore
    exact (l.counts_record ..).bind ((counts_build v hv depth _).bind hmore)

end

/-- The tree of a document is that of its value, unless the value is refused. -/
theorem run_buildRoot (l : Layout) {v : Loaded} (hv : v.isTree = true) (hnull : v.isNull = false) :
    (v.Fits l.maxNodes l.maxDepth → ∃ s, (l.buildRoot v).run {} = .ok (v.content, s)) ∧
      (¬ v.Fits l.maxNodes l.maxDepth →
        (l.buildRoot v).run {} = .error (v.refusal l.maxNodes l.maxDepth)) := by
  have hroom : (l.maxDepth + 1).toNat = l.room 0 := by
    unfold room
    omega
  have hcounts : l.Counts (v.depths 0) (l.buildRoot v) v.content := by
    unfold buildRoot
    rw [hroom]
    refine (l.counts_record ..).bind ?_
    split
    · cases hnull
    · exact counts_build v hv 0 ""
  have hne : v.depths 0 ≠ [] := by
    cases v <;> simp [Loaded.depths]
  have hfits : l.refusal? 0 (v.depths 0) = none ↔ v.Fits l.maxNodes l.maxDepth := by
    rw [refusal?_eq_none_iff]
    simp [hne, Loaded.Fits]
  constructor
  · intro h
    obtain ⟨s, hrun, _⟩ := hcounts.passed {} (hfits.mpr h)
    exact ⟨s, hrun⟩
  · intro h
    refine hcounts.refused {} _ ?_
    rw [refusal?_eq_some fun hnone => h (hfits.mp hnone)]
    simp [Loaded.refusal]

end Layout

/-! ### Documents -/

/-- What building the tree of a document from a text needs to know. -/
def Layout.ofText (limits : Limits) (text : String) (filename : Option String) (v : Loaded) :
    Layout where
  file := fileLabel filename
  lines := max 1 (Text.lines text).length
  maxNodes := limits.maxNodes
  maxDepth := limits.maxDepth
  anchored := v.anchored

/-- A value whose tree is refused makes no document. -/
theorem Document.ofLoaded_of_error {limits : Limits} {text : String} {filename : Option String}
    {v : Loaded} {refusal : Refusal}
    (h : ((Layout.ofText limits text filename v).buildRoot v).run {} = .error refusal) :
    Document.ofLoaded limits text filename v = .failed refusal.issue := by
  unfold Document.ofLoaded
  extract_lets layout
  rw [show (layout.buildRoot v).run {} = _ from h]

/-- A value whose tree is built makes a document with the tree and the positions recorded. -/
theorem Document.ofLoaded_of_ok {limits : Limits} {text : String} {filename : Option String}
    {v : Loaded} {c : Content} {s : Building}
    (h : ((Layout.ofText limits text filename v).buildRoot v).run {} = .ok (c, s)) :
    (Document.ofLoaded limits text filename v).errors = [] ∧
      ∃ d, (Document.ofLoaded limits text filename v).document = some d ∧ d.content = c ∧
        d.sourceMap = s.sourceMap := by
  unfold Document.ofLoaded
  extract_lets layout
  rw [show (layout.buildRoot v).run {} = _ from h]
  exact ⟨rfl, _, rfl, rfl, rfl⟩

/-- A mapping whose third value is the first one too deep. -/
def nestedText : String := "a: [1, 2]\nb: 3\n"

end BusinessModel
