import BusinessModel.Proofs.Schema.Coverage

/-!
Schemas whose mappings have their entries in another order. What a schema has at a key, where a walk
goes on to from it and where pointers and names lead in it are the same up to the order of entries; only
the places are others.
-/

namespace BusinessModel

namespace Value

/-- No mapping in the value has two entries with the same text as their key. -/
inductive RepeatsNoKey : Value → Prop where
  | scalar (s : Scalar) : RepeatsNoKey (.scalar s)
  | list {items : List Value} (hitems : ∀ v ∈ items, v.RepeatsNoKey) : RepeatsNoKey (.list items)
  | map {entries : List (Value × Value)} (hkeys : (entries.filterMap (·.1.str?)).Nodup)
      (hvalues : ∀ e ∈ entries, e.2.RepeatsNoKey) : RepeatsNoKey (.map entries)

/-- The values differ in the order of the entries of mappings only, at any depth. -/
inductive Reorders : Value → Value → Prop where
  | scalar (s : Scalar) : Reorders (.scalar s) (.scalar s)
  | list {rows : List (Value × Value)} (hitems : ∀ r ∈ rows, Reorders r.1 r.2) :
      Reorders (.list (rows.map (·.1))) (.list (rows.map (·.2)))
  | map {rows rows' : List (Value × Value × Value)} (hkeys : (rows.filterMap (·.1.str?)).Nodup)
      (horder : rows.Perm rows') (hvalues : ∀ r ∈ rows, Reorders r.2.1 r.2.2) :
      Reorders (.map (rows.map fun r => (r.1, r.2.1))) (.map (rows'.map fun r => (r.1, r.2.2)))

theorem RepeatsNoKey.reorders {v : Value} (h : v.RepeatsNoKey) : v.Reorders v := by
  induction h with
  | scalar s => exact .scalar s
  | @list items _ ih =>
    have hrows := @Reorders.list (items.map fun v => (v, v)) (List.forall_mem_map.mpr ih)
    simpa [List.map_map, Function.comp_def] using hrows
  | @map entries hkeys _ ih =>
    have hrows := @Reorders.map (entries.map fun e => (e.1, e.2, e.2))
      (entries.map fun e => (e.1, e.2, e.2)) (by simpa [List.filterMap_map] using hkeys)
      (.refl _) (List.forall_mem_map.mpr ih)
    simpa [List.map_map, Function.comp_def] using hrows

@[simp] theorem repeatsNoKey_scalar (s : Scalar) : (Value.scalar s).RepeatsNoKey := .scalar s

@[simp] theorem repeatsNoKey_list {items : List Value} :
    (Value.list items).RepeatsNoKey ↔ ∀ v ∈ items, v.RepeatsNoKey :=
  ⟨fun | .list hitems => hitems, .list⟩

@[simp] theorem repeatsNoKey_object {entries : List (String × Value)} :
    (Value.object entries).RepeatsNoKey ↔
      (entries.map (·.1)).Nodup ∧ ∀ e ∈ entries, e.2.RepeatsNoKey := by
  have hkeys : (entries.map fun e => (Value.str e.1, e.2)).filterMap (·.1.str?) =
      entries.map (·.1) := by
    simp [List.filterMap_map, Value.str?]
  constructor
  · rintro ⟨⟩
    next hnodup hvalues =>
    exact ⟨hkeys ▸ hnodup, fun e he => hvalues _ (List.mem_map_of_mem he)⟩
  · rintro ⟨hnodup, hvalues⟩
    exact .map (hkeys.symm ▸ hnodup) (List.forall_mem_map.mpr hvalues)

namespace Reorders

variable {v w : Value}

/-- Mappings written with texts as keys differ in order only if their rows do. -/
theorem object {rows rows' : List (String × Value × Value)} (hkeys : (rows.map (·.1)).Nodup)
    (horder : rows.Perm rows') (hvalues : ∀ r ∈ rows, r.2.1.Reorders r.2.2) :
    (Value.object (rows.map fun r => (r.1, r.2.1))).Reorders
      (.object (rows'.map fun r => (r.1, r.2.2))) := by
  have hrows := @Reorders.map (rows.map fun r => (.str r.1, r.2)) (rows'.map fun r => (.str r.1, r.2))
    (by simpa [List.filterMap_map, Function.comp_def, str?] using hkeys) (horder.map _)
    (List.forall_mem_map.mpr hvalues)
  simpa [Value.object, List.map_map, Function.comp_def] using hrows

/-- The last value of a mapping may have another order inside. -/
theorem object_last (front : List (String × Value)) (key : String)
    (hkeys : (front.map (·.1) ++ [key]).Nodup) (hfront : ∀ e ∈ front, e.2.RepeatsNoKey)
    (h : v.Reorders w) :
    (Value.object (front ++ [(key, v)])).Reorders (.object (front ++ [(key, w)])) := by
  have hrows := @object (front.map (fun e => (e.1, e.2, e.2)) ++ [(key, v, w)]) _
    (by simpa [Function.comp_def] using hkeys) (.refl _) (by
      intro r hr
      rcases List.mem_append.mp hr with hr | hr
      · obtain ⟨e, he, rfl⟩ := List.mem_map.mp hr
        exact (hfront e he).reorders
      · rw [List.mem_singleton.mp hr]
        exact h)
  simpa [Function.comp_def] using hrows

/-- Two entries may change places. -/
theorem object_swap (a b : String × Value) (hne : a.1 ≠ b.1) (ha : a.2.RepeatsNoKey)
    (hb : b.2.RepeatsNoKey) : (Value.object [a, b]).Reorders (.object [b, a]) :=
  @object [(a.1, a.2, a.2), (b.1, b.2, b.2)] _ (by simpa using hne) (.swap ..)
    (by simpa using ⟨ha.reorders, hb.reorders⟩)

theorem symm (h : v.Reorders w) : w.Reorders v := by
  induction h with
  | scalar s => exact .scalar s
  | @list rows _ ih =>
    have hrows := @Reorders.list (rows.map Prod.swap) (List.forall_mem_map.mpr ih)
    simpa [List.map_map, Function.comp_def] using hrows
  | @map rows rows' hkeys horder _ ih =>
    have hrows := @Reorders.map (rows'.map fun r => (r.1, r.2.2, r.2.1))
      (rows.map fun r => (r.1, r.2.2, r.2.1))
      (by simpa [List.filterMap_map, Function.comp_def] using
        (horder.filterMap _).nodup_iff.mp hkeys)
      (horder.symm.map _) (List.forall_mem_map.mpr fun r hr => ih r (horder.mem_iff.mpr hr))
    simpa [List.map_map, Function.comp_def] using hrows

theorem isMap_eq (h : v.Reorders w) : w.isMap = v.isMap := by
  cases h <;> rfl

theorem isSet_eq (h : v.Reorders w) : w.isSet = v.isSet := by
  cases h with
  | scalar s => rfl
  | list _ => simp [isSet]
  | map _ horder _ => simp [isSet, horder.isEmpty_eq]

theorem eq_scalar {s : Scalar} (h : Reorders (.scalar s) w) : w = .scalar s := by
  cases h
  rfl

/-- Each entry of a mapping has its counterpart. -/
theorem exists_entry (h : v.Reorders w) {key x : Value} (hx : (key, x) ∈ v.entries) :
    ∃ y, (key, y) ∈ w.entries ∧ x.Reorders y := by
  cases h with
  | scalar s => cases hx
  | list _ => cases hx
  | map _ horder hvalues =>
    obtain ⟨r, hr, heq⟩ := List.mem_map.mp hx
    cases heq
    exact ⟨r.2.2, List.mem_map.mpr ⟨r, horder.mem_iff.mp hr, rfl⟩, hvalues r hr⟩

/-- Items stay where they are. -/
theorem exists_item (h : v.Reorders w) {i : Nat} {x : Value} (hx : v.items[i]? = some x) :
    ∃ y, w.items[i]? = some y ∧ x.Reorders y := by
  cases h with
  | scalar s => cases hx
  | @list rows hitems =>
    rw [items, List.getElem?_map] at hx
    obtain ⟨r, hr, rfl⟩ := Option.map_eq_some_iff.mp hx
    refine ⟨r.2, ?_, hitems r (List.mem_of_getElem? hr)⟩
    rw [items, List.getElem?_map, hr]
    rfl
  | map _ _ _ => cases hx

end Reorders

/-- In a mapping that repeats no key, each entry is found. -/
theorem lookup_eq_some_of_mem {entries : List (Value × Value)} {key : String} {x : Value}
    (hkeys : (entries.filterMap (·.1.str?)).Nodup) (hx : (.str key, x) ∈ entries) :
    lookup key entries = some x := by
  fun_induction lookup key entries with
  | case1 => cases hx
  | case2 k y rest hk =>
    rw [beq_iff_eq] at hk
    subst hk
    rcases List.mem_cons.mp hx with heq | hx
    · cases heq
      rfl
    · have hmem : k ∈ rest.filterMap (·.1.str?) := List.mem_filterMap.mpr ⟨_, hx, rfl⟩
      exact absurd hmem (List.nodup_cons.mp hkeys).1
  | case3 k y rest hk ih =>
    refine ih (List.nodup_cons.mp hkeys).2 ((List.mem_cons.mp hx).resolve_left fun heq => ?_)
    cases heq
    simp at hk
  | case4 e rest hother ih =>
    obtain ⟨k, y⟩ := e
    refine ih ?_ ((List.mem_cons.mp hx).resolve_left fun heq => ?_)
    · have hnone : k.str? = none := by
        unfold str?
        split
        · next name => exact (hother name y rfl).elim
        · rfl
      simpa [List.filterMap_cons, hnone] using hkeys
    · cases heq
      exact hother key x rfl

/-- What a value has at a key has its counterpart. -/
theorem Reorders.exists_get? {v w : Value} (h : v.Reorders w) {key : String} {x : Value}
    (hx : v.get? key = some x) : ∃ y, w.get? key = some y ∧ x.Reorders y := by
  have hentry : (.str key, x) ∈ v.entries := by
    unfold get? at hx
    split at hx
    · exact Schema.mem_of_lookup_text hx
    · cases hx
  obtain ⟨y, hy, hxy⟩ := h.exists_entry hentry
  refine ⟨y, ?_, hxy⟩
  cases h with
  | scalar s => cases hy
  | list _ => cases hy
  | map hkeys horder _ =>
    refine lookup_eq_some_of_mem ?_ hy
    simpa [List.filterMap_map, Function.comp_def] using (horder.filterMap _).nodup_iff.mp hkeys

theorem Reorders.get?_eq_none {v w : Value} (h : v.Reorders w) {key : String}
    (hnone : v.get? key = none) : w.get? key = none := by
  cases hy : w.get? key with
  | none => rfl
  | some y =>
    obtain ⟨x, hx, _⟩ := h.symm.exists_get? hy
    cases hnone.symm.trans hx

/-- A text at a key is at the key in the other value too. -/
theorem Reorders.get?_str_iff {v w : Value} (h : v.Reorders w) {key text : String} :
    v.get? key = some (.str text) ↔ w.get? key = some (.str text) := by
  constructor
  · intro hv
    obtain ⟨y, hy, hxy⟩ := h.exists_get? hv
    rw [hy, hxy.eq_scalar]
  · intro hw
    obtain ⟨y, hy, hxy⟩ := h.symm.exists_get? hw
    rw [hy, hxy.eq_scalar]

/-- The lists hold the same values under the same keys, up to the order of both the lists and the
entries of mappings. -/
def Rearranges {α : Type} (xs ys : List (α × Value)) : Prop :=
  ∃ rows rows' : List (α × Value × Value), rows.Perm rows' ∧
    xs = rows.map (fun r => (r.1, r.2.1)) ∧ ys = rows'.map (fun r => (r.1, r.2.2)) ∧
    ∀ r ∈ rows, r.2.1.Reorders r.2.2

namespace Rearranges

variable {α : Type} {xs ys : List (α × Value)}

theorem of_perm (horder : xs.Perm ys) (h : ∀ e ∈ xs, e.2.RepeatsNoKey) : Rearranges xs ys := by
  refine ⟨xs.map fun e => (e.1, e.2, e.2), ys.map fun e => (e.1, e.2, e.2), horder.map _, ?_, ?_, ?_⟩
  · simp [List.map_map, Function.comp_def]
  · simp [List.map_map, Function.comp_def]
  · exact List.forall_mem_map.mpr fun e he => (h e he).reorders

theorem symm (h : Rearranges xs ys) : Rearranges ys xs := by
  obtain ⟨rows, rows', horder, rfl, rfl, hvalues⟩ := h
  refine ⟨rows'.map fun r => (r.1, r.2.2, r.2.1), rows.map fun r => (r.1, r.2.2, r.2.1),
    (horder.symm.map _), ?_, ?_, ?_⟩
  · simp [List.map_map, Function.comp_def]
  · simp [List.map_map, Function.comp_def]
  · exact List.forall_mem_map.mpr fun r hr => (hvalues r (horder.mem_iff.mpr hr)).symm

/-- Each member has its counterpart. -/
theorem exists_getElem? (h : Rearranges xs ys) {i : Nat} {a : α} {v : Value}
    (hi : xs[i]? = some (a, v)) :
    ∃ (j : Nat) (w : Value), ys[j]? = some (a, w) ∧ v.Reorders w := by
  obtain ⟨rows, rows', horder, rfl, rfl, hvalues⟩ := h
  rw [List.getElem?_map] at hi
  obtain ⟨r, hr, heq⟩ := Option.map_eq_some_iff.mp hi
  cases heq
  have hmem := List.mem_of_getElem? hr
  obtain ⟨j, hj⟩ := List.getElem?_of_mem (horder.mem_iff.mp hmem)
  exact ⟨j, r.2.2, by rw [List.getElem?_map, hj]; rfl, hvalues r hmem⟩

theorem perm_fst (h : Rearranges xs ys) : (xs.map (·.1)).Perm (ys.map (·.1)) := by
  obtain ⟨rows, rows', horder, rfl, rfl, _⟩ := h
  rw [List.map_map, List.map_map]
  exact horder.map _

end Rearranges

end Value

namespace Schema

open Value

/-- Both schemas give themselves the same address. -/
theorem idOf?_eq_of_reorders {v w : Value} (h : v.Reorders w) : idOf? w = idOf? v := by
  cases hv : v.get? "$id" with
  | none =>
    have hw := h.get?_eq_none hv
    cases h with
    | scalar s => rfl
    | list _ => rfl
    | map _ _ _ =>
      simp only [Value.get?] at hv hw
      simp only [idOf?, hv, hw]
  | some x =>
    obtain ⟨y, hw, hxy⟩ := h.exists_get? hv
    cases h with
    | scalar s => rfl
    | list _ => rfl
    | map _ _ _ =>
      simp only [Value.get?] at hv hw
      simp only [idOf?, hv, hw]
      cases hxy <;> rfl

/-- An address that a schema gives itself is a text at its keyword. -/
theorem exists_id_of_idOf? {v : Value} {id : String} (h : idOf? v = .ok (some id)) :
    ∃ text, v.get? "$id" = some (.str text) := by
  unfold idOf? at h
  split at h
  · cases h
  · next entries =>
    split at h
    · cases h
    · cases h
    · next text hlookup => exact ⟨text, hlookup⟩
    · cases h
  · cases h

namespace Located

variable {s s' : Located} (h : s.value.Reorders s'.value)

include h

theorem exists_get?_of_reorders {key : String} {inner : Located} (hinner : s.get? key = some inner) :
    ∃ inner', s'.get? key = some inner' ∧ inner.value.Reorders inner'.value := by
  obtain ⟨y, hy, hxy⟩ := h.exists_get? (Located.value_of_get? hinner)
  obtain ⟨inner', hinner', rfl⟩ := Located.exists_get? hy
  exact ⟨inner', hinner', hxy⟩

theorem exists_entry_of_reorders {key : Value} {inner : Located} (hinner : (key, inner) ∈ s.entries) :
    ∃ inner', (key, inner') ∈ s'.entries ∧ inner.value.Reorders inner'.value := by
  obtain ⟨i, x, hx, rfl⟩ := Located.mem_entries_iff.mp hinner
  obtain ⟨y, hy, hxy⟩ := h.exists_entry (List.mem_of_getElem? hx)
  obtain ⟨j, hj⟩ := List.getElem?_of_mem hy
  exact ⟨s'.part j y, Located.mem_entries_iff.mpr ⟨j, y, hj, rfl⟩, hxy⟩

theorem exists_item_of_reorders {inner : Located} (hinner : inner ∈ s.items) :
    ∃ inner' ∈ s'.items, inner.value.Reorders inner'.value := by
  obtain ⟨i, x, hx, rfl⟩ := Located.mem_items_iff.mp hinner
  obtain ⟨y, hy, hxy⟩ := h.exists_item hx
  exact ⟨s'.part i y, Located.mem_items_iff.mpr ⟨i, y, hy, rfl⟩, hxy⟩

end Located

/-- A walk goes on to the same schemas. -/
theorem Walk.exists_enters_of_reorders {s s' t : Located} {name name' : Option String}
    (h : s.value.Reorders s'.value) (hw : Enters ⟨s, {}, name⟩ ⟨t, {}, name'⟩) :
    ∃ t', Enters ⟨s', {}, name⟩ ⟨t', {}, name'⟩ ∧ t.value.Reorders t'.value := by
  cases hw with
  | property hinner ht =>
    obtain ⟨inner', hinner', hreorders⟩ := Located.exists_get?_of_reorders h hinner
    obtain ⟨t', ht', hreorders⟩ := Located.exists_entry_of_reorders hreorders ht
    exact ⟨t', .property (v := ⟨s', {}, name⟩) hinner' ht', hreorders⟩
  | pattern hinner ht =>
    obtain ⟨inner', hinner', hreorders⟩ := Located.exists_get?_of_reorders h hinner
    obtain ⟨t', ht', hreorders⟩ := Located.exists_entry_of_reorders hreorders ht
    exact ⟨t', .pattern (v := ⟨s', {}, name⟩) hinner' ht', hreorders⟩
  | items hinner hmap =>
    obtain ⟨t', hinner', hreorders⟩ := Located.exists_get?_of_reorders h hinner
    exact ⟨t', .items (v := ⟨s', {}, name⟩) hinner' (hreorders.isMap_eq.trans hmap), hreorders⟩
  | additional hinner hmap =>
    obtain ⟨t', hinner', hreorders⟩ := Located.exists_get?_of_reorders h hinner
    exact ⟨t', .additional (v := ⟨s', {}, name⟩) hinner' (hreorders.isMap_eq.trans hmap), hreorders⟩
  | way hkeyword hinner ht =>
    obtain ⟨inner', hinner', hreorders⟩ := Located.exists_get?_of_reorders h hinner
    obtain ⟨t', ht', hreorders⟩ := Located.exists_item_of_reorders hreorders ht
    exact ⟨t', .way (v := ⟨s', {}, name⟩) hkeyword hinner' ht', hreorders⟩

/-! ### Pointers -/

/-- A step of a pointer leads to a part. -/
theorem exists_part_of_stepInto {pointer step key : String} {s inner : Located}
    (h : stepInto pointer step s = .ok (key, inner)) : ∃ i v, inner = s.part i v := by
  unfold stepInto at h
  split at h
  · split at h
    · cases h
    · dsimp only at h
      split at h
      · cases h
        exact ⟨_, _, rfl⟩
      · cases h
  · split at h
    · cases h
    · dsimp only at h
      split at h
      · cases h
        exact ⟨_, _, rfl⟩
      · cases h
  · dsimp only at h
    split at h
    · next part hpart =>
      cases h
      obtain ⟨i, v, _, rfl⟩ := Located.mem_entries_iff.mp (Located.mem_of_get? hpart)
      exact ⟨i, v, rfl⟩
    · cases h
  · cases h

theorem exists_stepInto_of_reorders {pointer step key : String} {s s' inner : Located}
    (hreorders : s.value.Reorders s'.value) (h : stepInto pointer step s = .ok (key, inner)) :
    ∃ inner', stepInto pointer step s' = .ok (key, inner') ∧
      inner.value.Reorders inner'.value := by
  unfold stepInto at h ⊢
  split at h
  · next vs hvalue =>
    obtain ⟨ws, hvalue', hlength⟩ : ∃ ws, s'.value = .list ws ∧ ws.length = vs.length := by
      rw [hvalue] at hreorders
      generalize s'.value = w at hreorders
      cases hreorders
      exact ⟨_, rfl, by simp⟩
    rw [hvalue']
    dsimp only
    split at h
    · cases h
    · next n hn =>
      rw [hlength]
      dsimp only at h ⊢
      generalize (if n < 0 then n + (vs.length : Int) else n) = position at h ⊢
      split at h
      · next v hv =>
        cases h
        split at hv
        · cases hv
        · next hposition =>
          obtain ⟨w, hw, hvw⟩ := hreorders.exists_item (by rw [hvalue]; exact hv)
          rw [hvalue'] at hw
          change ws[_]? = _ at hw
          rw [if_neg hposition, hw]
          exact ⟨_, rfl, hvw⟩
      · cases h
  · next text hvalue =>
    rw [hvalue] at hreorders
    rw [hreorders.eq_scalar]
    dsimp only
    split at h
    · cases h
    · dsimp only at h ⊢
      split at h
      · next c hc =>
        cases h
        exact ⟨_, rfl, .scalar _⟩
      · cases h
  · next entries hvalue =>
    obtain ⟨entries', hvalue'⟩ : ∃ entries', s'.value = .map entries' := by
      rw [hvalue] at hreorders
      generalize s'.value = w at hreorders
      cases hreorders
      exact ⟨_, rfl⟩
    rw [hvalue']
    dsimp only at h ⊢
    split at h
    · next part hpart =>
      cases h
      obtain ⟨inner', hinner', hinners⟩ := Located.exists_get?_of_reorders hreorders hpart
      rw [hinner']
      exact ⟨inner', rfl, hinners⟩
    · cases h
  · cases h

/-- No part of the schemas gives itself an address. -/
def HasNoInnerId (schemas : List Value) : Prop :=
  ∀ s : Located, s.IsIn schemas → s.place.steps ≠ [] → ∀ id, s.value.get? "$id" ≠ some (.str id)

section Pointer

variable {schemas : List Value} (hid : HasNoInnerId schemas) {pointer : String}
  {steps passed : List String} {s t : Located} {scope inner : Scope} (hs : s.IsIn schemas)

include hid hs

/-- Entering a part without an address of its own leaves the scope as it is. -/
theorem HasNoInnerId.of_enter (hsteps : s.place.steps ≠ []) (h : scope.enter s.value = .ok inner) :
    idOf? s.value = .ok none ∧ inner = scope := by
  obtain ⟨own, hown, h⟩ := bind_eq_ok_iff.mp h
  cases own with
  | none =>
    cases h
    exact ⟨hown, rfl⟩
  | some id =>
    obtain ⟨text, htext⟩ := exists_id_of_idOf? hown
    exact absurd htext (hid s hs hsteps text)

/-- Where no part has an address of its own, a pointer leads to a part of the same schema. -/
theorem HasNoInnerId.of_followSteps (h : followSteps pointer steps passed s scope = .ok (t, inner)) :
    inner = scope ∧ t.place.root = s.place.root := by
  induction steps generalizing passed s with
  | nil =>
    cases h
    exact ⟨rfl, rfl⟩
  | cons step rest ih =>
    obtain ⟨⟨key, part⟩, hstep, h⟩ := bind_eq_ok_iff.mp h
    have hin := isIn_of_stepInto hs hstep
    obtain ⟨i, v, rfl⟩ := exists_part_of_stepInto hstep
    dsimp only at h
    split at h
    · obtain ⟨entered, hentered, h⟩ := bind_eq_ok_iff.mp h
      obtain ⟨_, rfl⟩ := hid.of_enter hin (List.cons_ne_nil _ _) hentered
      obtain ⟨hscope, hroot⟩ := ih hin h
      exact ⟨hscope, hroot⟩
    · obtain ⟨hscope, hroot⟩ := ih hin h
      exact ⟨hscope, hroot⟩

/-- A pointer leads to the same schema from any scope. -/
theorem exists_followSteps_of_reorders {s' : Located} (hreorders : s.value.Reorders s'.value)
    (h : followSteps pointer steps passed s scope = .ok (t, inner)) :
    ∃ t', t.value.Reorders t'.value ∧ t'.place.root = s'.place.root ∧
      ∀ scope', followSteps pointer steps passed s' scope' = .ok (t', scope') := by
  induction steps generalizing passed s s' with
  | nil =>
    cases h
    exact ⟨s', hreorders, rfl, fun _ => rfl⟩
  | cons step rest ih =>
    obtain ⟨⟨key, part⟩, hstep, h⟩ := bind_eq_ok_iff.mp h
    obtain ⟨part', hstep', hparts⟩ := exists_stepInto_of_reorders hreorders hstep
    have hin := isIn_of_stepInto hs hstep
    obtain ⟨i, v, rfl⟩ := exists_part_of_stepInto hstep
    obtain ⟨i', v', rfl⟩ := exists_part_of_stepInto hstep'
    dsimp only at h
    split at h
    · next hleads =>
      obtain ⟨entered, hentered, h⟩ := bind_eq_ok_iff.mp h
      obtain ⟨hown, rfl⟩ := hid.of_enter hin (List.cons_ne_nil _ _) hentered
      obtain ⟨t', ht', hroot, hfollow⟩ := ih hin hparts h
      refine ⟨t', ht', hroot, fun scope' => ?_⟩
      have hentered' : scope'.enter (s'.part i' v').value = .ok scope' := by
        have hown' := (idOf?_eq_of_reorders hparts).trans hown
        simp [Scope.enter, hown', bind, Except.bind, pure, Except.pure]
      rw [beq_self_eq_true] at hfollow
      simp only [followSteps, hstep', hleads, if_true, hentered', bind, Except.bind, beq_self_eq_true]
      exact hfollow scope'
    · next hleads =>
      obtain ⟨t', ht', hroot, hfollow⟩ := ih hin hparts h
      refine ⟨t', ht', hroot, fun scope' => ?_⟩
      rw [beq_self_eq_true] at hfollow
      simp only [followSteps, hstep', hleads, bind, Except.bind, beq_self_eq_true]
      exact hfollow scope'

end Pointer

/-! ### Names -/

/-- The anchors have the same name, in schemas that differ in the order of entries only. -/
structure Anchor.Matches (a b : Anchor) : Prop where
  address : b.address = a.address
  name : b.name = a.name
  dynamic : b.dynamic = a.dynamic
  target : a.target.value.Reorders b.target.value

theorem Anchor.Matches.symm {a b : Anchor} (h : a.Matches b) : b.Matches a :=
  ⟨h.address.symm, h.name.symm, h.dynamic.symm, h.target.symm⟩

/-- The anchor of a name at an address. -/
def Registry.named (r : Registry) (address name : String) : Option Anchor :=
  r.survey.anchors.find? fun a => a.address == address && a.name == name

theorem Registry.named_eq_some {r : Registry} {address name : String} {a : Anchor}
    (h : r.named address name = some a) :
    a ∈ r.survey.anchors ∧ a.address = address ∧ a.name = name := by
  refine ⟨List.mem_of_find?_eq_some h, ?_⟩
  simpa using List.find?_some h

/-- A name is looked up at an address, and then at the address that the schema there gives itself. -/
theorem Registry.anchor?_eq (r : Registry) (address name : String) : r.anchor? address name =
    match r.named address name with
    | some a => .ok a
    | none =>
      match r.find? address with
      | none => .error (.unresolvable address)
      | some s =>
        match (idOf? s.value).toOption.join.bind (r.named · name) with
        | some a => .ok a
        | none =>
          .error (if name.toList.contains '/' then .invalidAnchor name else .noSuchAnchor name) :=
  rfl

/-- An anchor that a name leads to is known. -/
theorem Registry.mem_of_anchor? {r : Registry} {address name : String} {a : Anchor}
    (h : r.anchor? address name = .ok a) : a ∈ r.survey.anchors := by
  rw [Registry.anchor?_eq] at h
  split at h
  · next b hb =>
    cases h
    exact (Registry.named_eq_some hb).1
  · split at h
    · cases h
    · split at h
      · next b hb =>
        cases h
        obtain ⟨id, _, hid⟩ := Option.bind_eq_some_iff.mp hb
        exact (Registry.named_eq_some hid).1
      · cases h

/-- Of a name that is given once, the anchor is found. -/
theorem Registry.named_eq_of_mem {r : Registry}
    (hnodup : (r.survey.anchors.map fun a => (a.address, a.name)).Nodup) {a : Anchor}
    (ha : a ∈ r.survey.anchors) : r.named a.address a.name = some a := by
  cases hnamed : r.named a.address a.name with
  | some b =>
    obtain ⟨hb, haddress, hname⟩ := Registry.named_eq_some hnamed
    rw [List.inj_on_of_nodup_map hnodup hb ha (Prod.ext haddress hname)]
  | none =>
    have hnone := List.find?_eq_none.mp hnamed a ha
    simp at hnone

namespace Survey

variable {base : String} {place : Place} {slot : Slot} {a : Anchor}

theorem mem_anchors_append {r s : Survey} :
    a ∈ (r.append s).anchors ↔ a ∈ r.anchors ∨ a ∈ s.anchors := by
  rw [append, List.mem_append, or_comm]

theorem mem_anchors_ofItems {n : Nat} {items : List Value} :
    a ∈ (ofItems base place n items).anchors ↔ ∃ i v, items[i]? = some v ∧
      a ∈ (ofValue base { place with steps := (n + i) :: place.steps } .schema v).anchors := by
  induction items generalizing n with
  | nil => simp [ofItems]
  | cons v rest ih =>
    rw [ofItems, mem_anchors_append, ih]
    constructor
    · rintro (ha | ⟨i, w, hw, ha⟩)
      · exact ⟨0, v, rfl, ha⟩
      · refine ⟨i + 1, w, hw, ?_⟩
        rwa [Nat.add_assoc, Nat.add_comm 1 i] at ha
    · rintro ⟨i, w, hw, ha⟩
      cases i with
      | zero =>
        cases hw
        exact .inl ha
      | succ i =>
        refine .inr ⟨i, w, hw, ?_⟩
        rwa [Nat.add_assoc, Nat.add_comm 1 i]

/-- What an entry holds. -/
def innerSlot (slot : Slot) (key : Value) : Option Slot :=
  match slot with
  | .table => some .schema
  | .schema => key.str?.bind Slot.ofKeyword?
  | .list => none

theorem mem_anchors_ofEntries {n : Nat} {entries : List (Value × Value)} :
    a ∈ (ofEntries base place n slot entries).anchors ↔ ∃ i k v inner, entries[i]? = some (k, v) ∧
      innerSlot slot k = some inner ∧
      a ∈ (ofValue base { place with steps := (n + i) :: place.steps } inner v).anchors := by
  induction entries generalizing n with
  | nil => simp [ofEntries]
  | cons e rest ih =>
    obtain ⟨k, v⟩ := e
    have hhere : ofEntries base place n slot ((k, v) :: rest) = (((innerSlot slot k).map fun inner =>
        ofValue base { place with steps := n :: place.steps } inner v).getD {}).append
          (ofEntries base place (n + 1) slot rest) := by
      cases slot with
      | table => simp [ofEntries, innerSlot]
      | list => simp [ofEntries, innerSlot]
      | schema => cases hinner : k.str?.bind Slot.ofKeyword? <;> simp [ofEntries, innerSlot, hinner]
    rw [hhere, mem_anchors_append, ih]
    constructor
    · rintro (ha | ⟨i, k', w, inner, hw, hinner, ha⟩)
      · cases hslot : innerSlot slot k with
        | none => simp [hslot] at ha
        | some inner =>
          rw [hslot] at ha
          exact ⟨0, k, v, inner, rfl, hslot, ha⟩
      · refine ⟨i + 1, k', w, inner, hw, hinner, ?_⟩
        rwa [Nat.add_assoc, Nat.add_comm 1 i] at ha
    · rintro ⟨i, k', w, inner, hw, hinner, ha⟩
      cases i with
      | zero =>
        cases hw
        rw [hinner]
        exact .inl ha
      | succ i =>
        refine .inr ⟨i, k', w, inner, hw, hinner, ?_⟩
        rwa [Nat.add_assoc, Nat.add_comm 1 i]

/-- A schema names itself by a text at one of two keywords. -/
theorem mem_anchors_ofSchema {s : Located} : a ∈ (ofSchema base s).anchors ↔
    ∃ keyword dynamic name, (keyword, dynamic) ∈ [("$dynamicAnchor", true), ("$anchor", false)] ∧
      s.value.get? keyword = some (.str name) ∧ a = ⟨addressIn base s.value, name, dynamic, s⟩ := by
  have hnamed (keyword : String) (dynamic : Bool) {found : List Anchor}
      (hsome : ∀ name, s.value.get? keyword = some (.str name) →
        found = [⟨addressIn base s.value, name, dynamic, s⟩])
      (hnone : (∀ name, s.value.get? keyword ≠ some (.str name)) → found = []) :
      a ∈ found ↔ ∃ name, s.value.get? keyword = some (.str name) ∧
        a = ⟨addressIn base s.value, name, dynamic, s⟩ := by
    by_cases hname : ∃ name, s.value.get? keyword = some (.str name)
    · obtain ⟨name, hname⟩ := hname
      simp [hsome name hname, hname]
    · rw [hnone fun name h => hname ⟨name, h⟩]
      exact iff_of_false List.not_mem_nil fun h => hname ⟨_, h.choose_spec.1⟩
  rw [ofSchema, List.mem_append]
  refine (or_congr (hnamed "$dynamicAnchor" true ?_ ?_) (hnamed "$anchor" false ?_ ?_)).trans ⟨?_, ?_⟩
  · intro name hname
    simp only [hname]
  · intro hnot
    dsimp only
    split
    · next name hname => exact absurd hname (hnot name)
    · rfl
  · intro name hname
    simp only [hname]
  · intro hnot
    dsimp only
    split
    · next name hname => exact absurd hname (hnot name)
    · rfl
  · rintro (⟨name, hname, ha⟩ | ⟨name, hname, ha⟩)
    · exact ⟨_, _, name, List.mem_cons_self, hname, ha⟩
    · exact ⟨_, _, name, List.mem_cons_of_mem _ List.mem_cons_self, hname, ha⟩
  · rintro ⟨keyword, dynamic, name, hkeyword, hname, ha⟩
    rcases List.mem_cons.mp hkeyword with heq | hkeyword
    · cases heq
      exact .inl ⟨name, hname, ha⟩
    · cases List.mem_singleton.mp hkeyword
      exact .inr ⟨name, hname, ha⟩

theorem addressIn_eq_of_reorders {v w : Value} (h : v.Reorders w) :
    addressIn base w = addressIn base v := by
  rw [addressIn, addressIn, idOf?_eq_of_reorders h]

/-- A mapping is surveyed as a schema, if it is one, and then entry by entry. -/
theorem mem_anchors_ofMap {entries : List (Value × Value)} :
    a ∈ (ofValue base place slot (.map entries)).anchors ↔
      (slot = .schema ∧ a ∈ (ofSchema base ⟨.map entries, place⟩).anchors) ∨
      a ∈ (ofEntries (if slot = .schema then addressIn base (.map entries) else base) place 0 slot
        entries).anchors := by
  cases slot <;> simp [ofValue, mem_anchors_append]

/-- The names in schemas that differ in the order of entries are the same. -/
theorem exists_anchor_of_reorders {v w : Value} (h : v.Reorders w) (place' : Place)
    (ha : a ∈ (ofValue base place slot v).anchors) :
    ∃ b ∈ (ofValue base place' slot w).anchors, a.Matches b ∧
      a.target.place.root = place.root ∧ b.target.place.root = place'.root := by
  induction h generalizing base place place' slot with
  | scalar s => simp [ofValue] at ha
  | @list rows hitems ih =>
    cases slot with
    | list =>
      rw [ofValue, mem_anchors_ofItems] at ha
      obtain ⟨i, v, hv, ha⟩ := ha
      rw [List.getElem?_map] at hv
      obtain ⟨r, hr, rfl⟩ := Option.map_eq_some_iff.mp hv
      obtain ⟨b, hb, hmatches⟩ := ih r (List.mem_of_getElem? hr)
        { place' with steps := (0 + i) :: place'.steps } ha
      refine ⟨b, ?_, hmatches⟩
      rw [ofValue, mem_anchors_ofItems]
      exact ⟨i, r.2, by rw [List.getElem?_map, hr]; rfl, hb⟩
    | schema => simp [ofValue] at ha
    | table => simp [ofValue] at ha
  | @map rows rows' hkeys horder hvalues ih =>
    have hreorders := Value.Reorders.map hkeys horder hvalues
    rw [mem_anchors_ofMap] at ha
    rcases ha with ⟨rfl, ha⟩ | ha
    · obtain ⟨keyword, dynamic, name, hkeyword, hname, rfl⟩ := mem_anchors_ofSchema.mp ha
      refine ⟨_, mem_anchors_ofMap.mpr (.inl ⟨rfl, mem_anchors_ofSchema.mpr
        ⟨keyword, dynamic, name, hkeyword, hreorders.get?_str_iff.mp hname, rfl⟩⟩),
        ⟨addressIn_eq_of_reorders hreorders, rfl, rfl, hreorders⟩, rfl, rfl⟩
    · obtain ⟨i, k, v, inner, hv, hinner, ha⟩ := mem_anchors_ofEntries.mp ha
      rw [List.getElem?_map] at hv
      obtain ⟨r, hr, heq⟩ := Option.map_eq_some_iff.mp hv
      cases heq
      obtain ⟨j, hj⟩ := List.getElem?_of_mem (horder.mem_iff.mp (List.mem_of_getElem? hr))
      obtain ⟨b, hb, hmatches⟩ := ih r (List.mem_of_getElem? hr)
        { place' with steps := (0 + j) :: place'.steps } ha
      refine ⟨b, mem_anchors_ofMap.mpr (.inr (mem_anchors_ofEntries.mpr
        ⟨j, r.1, r.2.2, inner, by rw [List.getElem?_map, hj]; rfl, hinner, ?_⟩)), hmatches⟩
      rw [addressIn_eq_of_reorders hreorders]
      exact hb

end Survey

/-- A registry knows the names in each of its schemas, if their addresses differ. -/
theorem Registry.mem_anchors_ofSchemas {schemas : List (String × Value)}
    (hnodup : (schemas.map fun e => Address.dropHashes e.1).Nodup) {a : Anchor} :
    a ∈ (Registry.ofSchemas schemas).survey.anchors ↔ ∃ i address v,
      schemas[i]? = some (address, v) ∧
        a ∈ (Survey.ofValue (Address.dropHashes address) ⟨i, []⟩ .schema v).anchors := by
  have hfold (located : List (String × Located)) (acc : Survey) :
      a ∈ (located.foldl (fun acc e =>
        acc.append (Survey.ofValue e.1 e.2.place .schema e.2.value)) acc).anchors ↔
        a ∈ acc.anchors ∨
          ∃ e ∈ located, a ∈ (Survey.ofValue e.1 e.2.place .schema e.2.value).anchors := by
    induction located generalizing acc with
    | nil => simp
    | cons e rest ih => rw [List.foldl_cons, ih, Survey.mem_anchors_append]; simp [or_assoc]
  refine (hfold _ _).trans ?_
  rw [Registry.lastOfEach_eq_self (Registry.map_fst_zipIdx Address.dropHashes schemas ▸ hnodup)]
  simp only [List.mem_map, List.not_mem_nil, false_or]
  constructor
  · rintro ⟨_, ⟨⟨⟨address, v⟩, i⟩, hmem, rfl⟩, ha⟩
    exact ⟨i, address, v, List.mem_zipIdx_iff_getElem?.mp hmem, ha⟩
  · rintro ⟨i, address, v, hi, ha⟩
    exact ⟨_, ⟨((address, v), i), List.mem_zipIdx_iff_getElem?.mpr hi, rfl⟩, ha⟩

/-! ### References -/

/-- What the part of an address behind the number sign leads to in a schema. -/
def followIn (r : Registry) (root : Located) (fragment : String) (scope : Scope) :
    Except Fault (Located × Scope) :=
  if fragment.toList.head? == some '/' then
    followSteps fragment
      (Pointer.pieces (Address.unquote (String.ofList (fragment.toList.drop 1)))) [] root scope
  else if fragment.isEmpty then return (root, scope)
  else do
    let a ← r.anchor? scope.base fragment
    if a.dynamic then
      let target ← dynamicTarget r scope a
      return (target, ← scope.enter target.value)
    else return (a.target, scope)

theorem follow_eq {r : Registry} {scope : Scope} {reference address fragment : String} {root : Located}
    (hresolve : scope.resolve reference = (address, fragment)) (hroot : r.find? address = some root) :
    follow r scope reference = followIn r root fragment (scope.moveTo address) := by
  unfold follow
  simp only [hresolve, hroot]
  rfl

theorem exists_root_of_follow {r : Registry} {scope : Scope} {reference : String}
    {target : Located × Scope} (h : follow r scope reference = .ok target) :
    ∃ root, r.find? (scope.resolve reference).1 = some root := by
  unfold follow at h
  cases hroot : r.find? (scope.resolve reference).1 with
  | some root => exact ⟨root, rfl⟩
  | none => simp [hroot] at h

end Schema

end BusinessModel
