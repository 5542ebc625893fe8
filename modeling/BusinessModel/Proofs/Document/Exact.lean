import BusinessModel.Document.Serialize
import BusinessModel.Proofs.Document.Distinct
import BusinessModel.Proofs.Schema.Reordering
import BusinessModel.Proofs.Yaml.Loaded
import Mathlib.Data.List.Perm.Basic

/-!
Values that are written without loss, and the content that is written for them: the same scalars, items
and entries, with the entries of a mapping in the order of their keys if that is asked for.
-/

namespace BusinessModel

namespace Value

/-- All scalars in the value are written without loss. -/
inductive IsExact : Value → Prop where
  | scalar {s : Scalar} (hs : s.IsExact) : IsExact (.scalar s)
  | list {items : List Value} (hitems : ∀ v ∈ items, v.IsExact) : IsExact (.list items)
  | map {entries : List (Value × Value)} (hvalues : ∀ e ∈ entries, e.2.IsExact) :
      IsExact (.map entries)

@[simp] theorem isExact_scalar {s : Scalar} : IsExact (.scalar s) ↔ s.IsExact :=
  ⟨fun | .scalar hs => hs, .scalar⟩

@[simp] theorem isExact_list {items : List Value} : IsExact (.list items) ↔ ∀ v ∈ items, v.IsExact :=
  ⟨fun | .list hitems => hitems, .list⟩

@[simp] theorem isExact_map {entries : List (Value × Value)} :
    IsExact (.map entries) ↔ ∀ e ∈ entries, e.2.IsExact := ⟨fun | .map hvalues => hvalues, .map⟩

/-- The texts of the value, those of its keys among them, are kept wherever lines are folded. -/
inductive IsKept : Value → Prop where
  | scalar {s : Scalar} (hs : ∀ text, s = .str text → Yaml.Folding.IsKept text.toList) :
      IsKept (.scalar s)
  | list {items : List Value} (hitems : ∀ v ∈ items, v.IsKept) : IsKept (.list items)
  | map {entries : List (Value × Value)}
      (hkeys : ∀ e ∈ entries, Yaml.Folding.IsKept e.1.text.toList)
      (hvalues : ∀ e ∈ entries, e.2.IsKept) : IsKept (.map entries)

@[simp] theorem isKept_scalar {s : Scalar} :
    IsKept (.scalar s) ↔ ∀ text, s = .str text → Yaml.Folding.IsKept text.toList :=
  ⟨fun | .scalar hs => hs, .scalar⟩

@[simp] theorem isKept_list {items : List Value} : IsKept (.list items) ↔ ∀ v ∈ items, v.IsKept :=
  ⟨fun | .list hitems => hitems, .list⟩

@[simp] theorem isKept_map {entries : List (Value × Value)} : IsKept (.map entries) ↔
    (∀ e ∈ entries, Yaml.Folding.IsKept e.1.text.toList) ∧ ∀ e ∈ entries, e.2.IsKept :=
  ⟨fun | .map hkeys hvalues => ⟨hkeys, hvalues⟩, fun h => .map h.1 h.2⟩

mutual

/-- How deep a value and those inside it lie below a root, in preorder; the value itself lies at the
given depth. Keys do not count. -/
def depths (depth : Nat) : Value → List Nat
  | .scalar _ => [depth]
  | .list items => depth :: depthsOfItems (depth + 1) items
  | .map entries => depth :: depthsOfEntries (depth + 1) entries

/-- How deep items and the values inside them lie. -/
def depthsOfItems (depth : Nat) : List Value → List Nat
  | [] => []
  | v :: rest => v.depths depth ++ depthsOfItems depth rest

/-- How deep the values of entries and those inside them lie. -/
def depthsOfEntries (depth : Nat) : List (Value × Value) → List Nat
  | [] => []
  | (_, v) :: rest => v.depths depth ++ depthsOfEntries depth rest

end

/-- There are no more values than allowed, the value and those inside it, and none lies deeper. -/
def Fits (v : Value) (maxNodes maxDepth : Int) : Prop :=
  ((v.depths 0).length : Int) ≤ maxNodes ∧ ∀ depth ∈ v.depths 0, (depth : Int) ≤ maxDepth

theorem depthsOfItems_eq (depth : Nat) (items : List Value) :
    depthsOfItems depth items = items.flatMap (depths depth) := by
  induction items with
  | nil => rfl
  | cons v rest ih => rw [depthsOfItems, ih, List.flatMap_cons]

theorem depthsOfEntries_eq (depth : Nat) (entries : List (Value × Value)) :
    depthsOfEntries depth entries = entries.flatMap fun e => e.2.depths depth := by
  induction entries with
  | nil => rfl
  | cons e rest ih => rw [depthsOfEntries, ih, List.flatMap_cons]

/-- The order of entries does not matter for how deep values lie. -/
theorem Reorders.depths_perm {v w : Value} (h : v.Reorders w) (depth : Nat) :
    (v.depths depth).Perm (w.depths depth) := by
  induction h generalizing depth with
  | scalar s => rfl
  | list hitems ih =>
    rw [depths, depths, depthsOfItems_eq, depthsOfItems_eq, List.flatMap_map, List.flatMap_map]
    exact .cons _ (.flatMap_left _ fun r hr => ih r hr (depth + 1))
  | map _ horder _ ih =>
    rw [depths, depths, depthsOfEntries_eq, depthsOfEntries_eq, List.flatMap_map, List.flatMap_map]
    exact .cons _ (horder.flatMap fun r hr => ih r hr (depth + 1))

theorem Reorders.fits {v w : Value} (h : v.Reorders w) {maxNodes maxDepth : Int}
    (hfits : v.Fits maxNodes maxDepth) : w.Fits maxNodes maxDepth := by
  have hperm := h.depths_perm 0
  exact ⟨hperm.length_eq ▸ hfits.1, fun d hd => hfits.2 d (hperm.mem_iff.mpr hd)⟩

end Value

/-! ### Arranged content -/

namespace Keyed

variable {α : Type}

theorem put_of_notMem {entries : List (String × α)} {name : String} {value : α}
    (h : name ∉ entries.map (·.1)) : put entries name value = entries ++ [(name, value)] := by
  induction entries with
  | nil => rfl
  | cons e rest ih =>
    obtain ⟨hne, hrest⟩ := not_or.mp (List.mem_cons.not.mp h)
    have hname : ¬ (e.1 == name) = true := by
      rw [beq_iff_eq]
      exact Ne.symm hne
    show (if (e.1 == name) = true then _ else _) = _
    rw [if_neg hname, ih hrest]
    rfl

/-- Names that occur once keep their values and their order. -/
theorem ofList_of_nodup {entries : List (String × α)} (h : (entries.map (·.1)).Nodup) :
    ofList entries = entries := by
  suffices hfold : ∀ seen : List (String × α), ((seen ++ entries).map (·.1)).Nodup →
      entries.foldl (fun seen e => put seen e.1 e.2) seen = seen ++ entries from hfold [] h
  induction entries with
  | nil => exact fun seen _ => (List.append_nil _).symm
  | cons e rest ih =>
    intro seen hseen
    have hnew : e.1 ∉ seen.map (·.1) := by
      rw [List.map_append, List.nodup_append] at hseen
      exact fun hmem => hseen.2.2 _ hmem _ List.mem_cons_self rfl
    rw [List.foldl_cons, put_of_notMem hnew, ih (List.nodup_cons.mp h).2 _ (by simpa using hseen)]
    simp

end Keyed

namespace Content

open Value

variable {sortKeys : Bool}

theorem arrangedItems_eq (items : List Value) :
    arrangedItems sortKeys items = items.map (arranged sortKeys) := by
  induction items with
  | nil => rfl
  | cons v rest ih => rw [arrangedItems, ih, List.map_cons]

theorem arrangedEntries_eq (entries : List (Value × Value)) :
    arrangedEntries sortKeys entries = entries.map fun e => (e.1.text, arranged sortKeys e.2) := by
  induction entries with
  | nil => rfl
  | cons e rest ih => rw [arrangedEntries, ih, List.map_cons]

/-- The entries of a mapping in the order in which they are written. -/
def inOrder (sortKeys : Bool) (entries : List (Value × Value)) : List (Value × Value) :=
  if sortKeys then entries.mergeSort fun a b => a.1.text ≤ b.1.text else entries

theorem inOrder_perm (entries : List (Value × Value)) : (inOrder sortKeys entries).Perm entries := by
  unfold inOrder
  split
  · exact List.mergeSort_perm _ _
  · rfl

@[simp] theorem mem_inOrder {entries : List (Value × Value)} {e : Value × Value} :
    e ∈ inOrder sortKeys entries ↔ e ∈ entries := (inOrder_perm entries).mem_iff

/-- Distinct keys are written in order, each with its value. -/
theorem arranged_map {entries : List (Value × Value)} (h : (entries.map (·.1.text)).Nodup) :
    arranged sortKeys (.map entries) =
      .mapping ((inOrder sortKeys entries).map fun e => (e.1.text, arranged sortKeys e.2)) := by
  have hsorted : (if sortKeys then sortEntries (arrangedEntries sortKeys entries)
      else arrangedEntries sortKeys entries) =
        (inOrder sortKeys entries).map fun e => (e.1.text, arranged sortKeys e.2) := by
    rw [arrangedEntries_eq]
    unfold inOrder sortEntries
    split
    · exact (List.map_mergeSort (f := fun e : Value × Value => (e.1.text, arranged sortKeys e.2))
        fun _ _ _ _ => rfl).symm
    · rfl
  have hnodup : (((inOrder sortKeys entries).map fun e =>
      (e.1.text, arranged sortKeys e.2)).map (·.1)).Nodup := by
    rw [List.map_map]
    exact ((inOrder_perm entries).map _).nodup_iff.mpr h
  rw [arranged, hsorted, Keyed.ofList_of_nodup hnodup]

end Content

/-! ### Trees -/

namespace Value.IsTree

open Content

variable {v : Value} {entries : List (Value × Value)} {sortKeys : Bool}

theorem nodup_texts (h : IsTree (.map entries)) : (entries.map (·.1.text)).Nodup := by
  cases h with
  | @map _ names hnames hnodup _ =>
    have htexts : (entries.map (·.1)).map Value.text = names := by
      rw [hnames, List.map_map]
      exact List.map_id'' (fun _ => rfl) names
    rw [List.map_map] at htexts
    exact htexts ▸ hnodup

theorem key_eq (h : IsTree (.map entries)) {e : Value × Value} (he : e ∈ entries) :
    e.1 = .str e.1.text := by
  obtain ⟨name, hname⟩ := h.exists_key he
  rw [hname]
  rfl

/-- A tree is written without loss if its scalars are. -/
theorem isExact_arranged (h : v.IsTree) (hexact : v.IsExact) : (arranged sortKeys v).IsExact := by
  induction h with
  | scalar s =>
    cases hexact with
    | scalar hs => exact .scalar hs
  | list _ ih =>
    cases hexact with
    | list hitems =>
      rw [arranged, arrangedItems_eq]
      exact .sequence (List.forall_mem_map.mpr fun w hw => ih w hw (hitems w hw))
  | map hnames hnodup hvalues ih =>
    cases hexact with
    | map hexact =>
      rw [arranged_map (IsTree.map hnames hnodup hvalues).nodup_texts]
      refine .mapping (List.forall_mem_map.mpr fun e he => ?_)
      exact ih e (mem_inOrder.mp he) (hexact e (mem_inOrder.mp he))

theorem isKept_arranged (h : v.IsTree) (hkept : v.IsKept) : (arranged sortKeys v).IsKept := by
  induction h with
  | scalar s =>
    cases hkept with
    | scalar hs => exact .scalar hs
  | list _ ih =>
    cases hkept with
    | list hitems =>
      rw [arranged, arrangedItems_eq]
      exact .sequence (List.forall_mem_map.mpr fun w hw => ih w hw (hitems w hw))
  | map hnames hnodup hvalues ih =>
    cases hkept with
    | map hkeys hkept =>
      rw [arranged_map (IsTree.map hnames hnodup hvalues).nodup_texts]
      refine .mapping (List.forall_mem_map.mpr fun e he => hkeys e (mem_inOrder.mp he))
        (List.forall_mem_map.mpr fun e he => ?_)
      exact ih e (mem_inOrder.mp he) (hkept e (mem_inOrder.mp he))

/-- A tree is written with distinct keys. -/
theorem isDistinct_arranged (h : v.IsTree) : (arranged sortKeys v).IsDistinct := by
  induction h with
  | scalar s => exact .scalar s
  | list _ ih =>
    rw [arranged, arrangedItems_eq]
    exact .sequence (List.forall_mem_map.mpr ih)
  | @map entries names hnames hnodup hvalues ih =>
    have hkeys := (IsTree.map hnames hnodup hvalues).nodup_texts
    rw [arranged_map hkeys]
    refine .mapping ?_ (List.forall_mem_map.mpr fun e he => ih e (mem_inOrder.mp he))
    rw [List.map_map]
    exact ((inOrder_perm entries).map _).nodup_iff.mpr hkeys

theorem toValue_arranged_map (h : IsTree (.map entries)) :
    (arranged sortKeys (.map entries)).toValue =
      .map ((inOrder sortKeys entries).map fun e => (e.1, (arranged sortKeys e.2).toValue)) := by
  have hdistinct : (arranged sortKeys (.map entries)).IsDistinct := h.isDistinct_arranged
  rw [arranged_map h.nodup_texts] at hdistinct ⊢
  cases hdistinct with
  | mapping hkeys _ =>
    rw [toValue_mapping hkeys, List.map_map]
    refine congrArg Value.map (List.map_congr_left fun e he => ?_)
    exact Prod.ext (h.key_eq (mem_inOrder.mp he)).symm rfl

/-- What is written for a tree differs from it in the order of entries only. -/
theorem reorders_arranged (h : v.IsTree) : v.Reorders (arranged sortKeys v).toValue := by
  induction h with
  | scalar s => exact .scalar s
  | @list items _ ih =>
    have hrows := @Reorders.list (items.map fun v => (v, (arranged sortKeys v).toValue))
      (List.forall_mem_map.mpr ih)
    rw [arranged, arrangedItems_eq, toValue, itemValues_eq]
    simpa [List.map_map, Function.comp_def] using hrows
  | @map entries names hnames hnodup hvalues ih =>
    have htree := IsTree.map hnames hnodup hvalues
    have hkeys : ((entries.map fun e => (e.1, e.2, (arranged sortKeys e.2).toValue)).filterMap
        (·.1.str?)).Nodup := by
      have hnames' : entries.filterMap (·.1.str?) = names := by
        have heq := congrArg (List.filterMap Value.str?) hnames
        rw [List.filterMap_map, List.filterMap_map] at heq
        exact heq.trans List.filterMap_some
      simpa [List.filterMap_map, Function.comp_def, hnames'] using hnodup
    have hrows := @Reorders.map (entries.map fun e => (e.1, e.2, (arranged sortKeys e.2).toValue))
      ((inOrder sortKeys entries).map fun e => (e.1, e.2, (arranged sortKeys e.2).toValue)) hkeys
      ((inOrder_perm entries).symm.map _) (List.forall_mem_map.mpr ih)
    rw [htree.toValue_arranged_map]
    simpa [List.map_map, Function.comp_def] using hrows

/-- A tree is written as it is, unless its keys are to be sorted. -/
theorem toValue_arranged (h : v.IsTree) : (arranged false v).toValue = v := by
  induction h with
  | scalar s => rfl
  | list _ ih =>
    rw [arranged, arrangedItems_eq, toValue, itemValues_eq, List.map_map]
    exact congrArg Value.list ((List.map_congr_left ih).trans (List.map_id _))
  | map hnames hnodup hvalues ih =>
    rw [(IsTree.map hnames hnodup hvalues).toValue_arranged_map]
    refine congrArg Value.map ((List.map_congr_left fun e he => ?_).trans (List.map_id _))
    exact Prod.ext rfl (ih e he)

end Value.IsTree

end BusinessModel
