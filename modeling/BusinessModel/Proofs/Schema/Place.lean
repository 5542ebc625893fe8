import BusinessModel.Proofs.Outcome
import BusinessModel.Schema.Registry

/-!
Places of schemas. Whatever a registry leads to, by addresses, names, pointers and keywords, is the
part of a registered schema at its place, so schemas with the same place have the same value.
-/

namespace BusinessModel

/-- The part of a value at a position. -/
def Value.part? : Value → Nat → Option Value
  | .list items, i => items[i]?
  | .map entries, i => entries[i]?.map (·.2)
  | .str s, i => s.toList[i]?.map fun c => .str (String.singleton c)
  | _, _ => none

/-- What a mapping written with texts as keys has at a key. -/
theorem Value.lookup_object (es : List (String × Value)) (key : String) :
    Value.lookup key (Value.object es).entries = es.lookup key := by
  simp only [Value.object, Value.entries]
  induction es with
  | nil => rfl
  | cons e rest ih =>
    obtain ⟨k, v⟩ := e
    rw [List.map_cons, Value.lookup, ih, List.lookup_cons]
    by_cases hk : k = key
    · simp [hk]
    · rw [if_neg (by simpa using hk), beq_eq_false_iff_ne.mpr (Ne.symm hk)]

theorem Value.get?_object (es : List (String × Value)) (key : String) :
    (Value.object es).get? key = es.lookup key := Value.lookup_object es key

theorem Value.eq_of_str? {v : Value} {text : String} (h : v.str? = some text) : v = .str text := by
  unfold str? at h
  split at h
  · rw [Option.some.inj h]
  · cases h

namespace Schema

/-- The value at a place in registered schemas. -/
def Place.value? (schemas : List Value) (p : Place) : Option Value :=
  p.steps.foldr (fun i v => v.bind (·.part? i)) schemas[p.root]?

/-- The located value is the one at its place. -/
def Located.IsIn (schemas : List Value) (s : Located) : Prop :=
  s.place.value? schemas = some s.value

namespace Located

variable {schemas : List Value} {s : Located}

/-- What a schema has at a key is a part of it. -/
theorem exists_get? {key : String} {v : Value} (h : s.value.get? key = some v) :
    ∃ inner, s.get? key = some inner ∧ inner.value = v := by
  obtain ⟨entries, hentries⟩ : ∃ entries, s.value = .map entries := by
    cases hvalue : s.value with
    | map entries => exact ⟨entries, rfl⟩
    | scalar _ => simp [hvalue, Value.get?] at h
    | list _ => simp [hvalue, Value.get?] at h
  rw [hentries, Value.get?] at h
  have hfind (n : Nat) : ∃ inner, ((entries.zipIdx n).map fun e => (e.1.1, s.part e.2 e.1.2)).find?
      (fun e => e.1.str? == some key) = some inner ∧ inner.2.value = v := by
    clear hentries
    induction entries generalizing n with
    | nil => cases h
    | cons e rest ih =>
      obtain ⟨k, w⟩ := e
      rw [List.zipIdx_cons, List.map_cons]
      by_cases hk : k = .str key
      · rw [hk, Value.lookup, if_pos (beq_self_eq_true key)] at h
        cases h
        exact ⟨_, List.find?_cons_of_pos (by simp [hk, Value.str?]), rfl⟩
      · have hskip : Value.lookup key rest = some v := by
          rw [Value.lookup.eq_def] at h
          split at h
          · cases h
          · next heq =>
            cases heq
            rw [if_neg (by simpa using hk)] at h
            exact h
          · next heq =>
            cases heq
            exact h
        obtain ⟨inner, hinner, hv⟩ := ih hskip (n + 1)
        refine ⟨inner, ?_, hv⟩
        rw [List.find?_cons_of_neg]
        · exact hinner
        · intro hstr
          apply hk
          cases k with
          | scalar x =>
            cases x with
            | str name => simpa [Value.str?] using hstr
            | _ => simp [Value.str?] at hstr
          | _ => simp [Value.str?] at hstr
  obtain ⟨inner, hinner, hv⟩ := hfind 0
  refine ⟨inner.2, ?_, hv⟩
  rw [Located.get?, Located.entries, hentries, Value.entries, hinner]
  rfl

theorem IsIn.value_eq {t : Located} (hs : s.IsIn schemas) (ht : t.IsIn schemas)
    (hplace : s.place = t.place) : s.value = t.value := by
  unfold IsIn at hs ht
  rw [hplace, ht] at hs
  exact (Option.some.inj hs).symm

/-- What is in the schemas stands in one of them. -/
theorem IsIn.exists_root (hs : s.IsIn schemas) : ∃ root, schemas[s.place.root]? = some root := by
  unfold IsIn Place.value? at hs
  cases hroot : schemas[s.place.root]? with
  | some root => exact ⟨root, rfl⟩
  | none =>
    have hnone : ∀ steps : List Nat,
        steps.foldr (fun i v => v.bind (·.part? i)) (none : Option Value) = none := by
      intro steps
      induction steps with
      | nil => rfl
      | cons i rest ih => rw [List.foldr_cons, ih]; rfl
    rw [hroot, hnone] at hs
    cases hs

theorem IsIn.part (hs : s.IsIn schemas) {i : Nat} {v : Value} (hv : s.value.part? i = some v) :
    (s.part i v).IsIn schemas := by
  unfold IsIn Place.value? at hs ⊢
  rw [Located.part, List.foldr_cons, hs]
  exact hv

theorem mem_items_iff {inner : Located} :
    inner ∈ s.items ↔ ∃ i v, s.value.items[i]? = some v ∧ inner = s.part i v := by
  rw [items, List.mem_map]
  constructor
  · rintro ⟨⟨v, i⟩, hmem, rfl⟩
    exact ⟨i, v, List.mem_zipIdx_iff_getElem?.mp hmem, rfl⟩
  · rintro ⟨i, v, hv, rfl⟩
    exact ⟨(v, i), List.mem_zipIdx_iff_getElem?.mpr hv, rfl⟩

theorem mem_entries_iff {k : Value} {inner : Located} :
    (k, inner) ∈ s.entries ↔ ∃ i v, s.value.entries[i]? = some (k, v) ∧ inner = s.part i v := by
  rw [entries, List.mem_map]
  constructor
  · rintro ⟨⟨⟨k', v⟩, i⟩, hmem, heq⟩
    obtain ⟨rfl, rfl⟩ := Prod.mk.inj heq
    exact ⟨i, v, List.mem_zipIdx_iff_getElem?.mp hmem, rfl⟩
  · rintro ⟨i, v, hv, rfl⟩
    exact ⟨((k, v), i), List.mem_zipIdx_iff_getElem?.mpr hv, rfl⟩

theorem IsIn.of_mem_items (hs : s.IsIn schemas) {inner : Located} (h : inner ∈ s.items) :
    inner.IsIn schemas := by
  obtain ⟨i, v, hv, rfl⟩ := mem_items_iff.mp h
  apply hs.part
  rcases hvalue : s.value with _ | items | _
  · simp [hvalue, Value.items] at hv
  · simpa [hvalue, Value.items, Value.part?] using hv
  · simp [hvalue, Value.items] at hv

theorem IsIn.of_mem_entries (hs : s.IsIn schemas) {k : Value} {inner : Located}
    (h : (k, inner) ∈ s.entries) : inner.IsIn schemas := by
  obtain ⟨i, v, hv, rfl⟩ := mem_entries_iff.mp h
  apply hs.part
  rcases hvalue : s.value with _ | _ | entries
  · simp [hvalue, Value.entries] at hv
  · simp [hvalue, Value.entries] at hv
  · simp only [hvalue, Value.entries] at hv
    simp [Value.part?, hv]

theorem IsIn.of_get? (hs : s.IsIn schemas) {key : String} {inner : Located}
    (h : s.get? key = some inner) : inner.IsIn schemas := by
  obtain ⟨⟨k, inner'⟩, hfind, rfl⟩ := Option.map_eq_some_iff.mp h
  exact hs.of_mem_entries (List.mem_of_find?_eq_some hfind)

end Located

/-- All that a survey has found is in the schemas. -/
structure Survey.IsOver (schemas : List Value) (s : Survey) : Prop where
  resources : ∀ e ∈ s.resources, e.2.IsIn schemas
  anchors : ∀ a ∈ s.anchors, a.target.IsIn schemas

namespace Survey

variable {schemas : List Value}

theorem IsOver.nil : IsOver schemas {} := ⟨by simp, by simp⟩

theorem IsOver.append {a b : Survey} (ha : a.IsOver schemas) (hb : b.IsOver schemas) :
    (a.append b).IsOver schemas := by
  constructor
  · intro e he
    exact (List.mem_append.mp he).elim (hb.resources e) (ha.resources e)
  · intro x hx
    exact (List.mem_append.mp hx).elim (hb.anchors x) (ha.anchors x)

/-- What a schema says about itself leads to the schema. -/
theorem isOver_ofSchema {base : String} {s : Located} (hs : s.IsIn schemas) :
    (ofSchema base s).IsOver schemas := by
  constructor
  · intro e he
    unfold ofSchema at he
    dsimp only at he
    split at he
    · rw [List.mem_singleton.mp he]
      exact hs
    · cases he
  · intro a ha
    rcases List.mem_append.mp ha with ha | ha
    all_goals
      dsimp only at ha
      split at ha
      · rw [List.mem_singleton.mp ha]
        exact hs
      · cases ha

mutual

theorem isOver_ofValue (base : String) (place : Place) (slot : Slot) (v : Value)
    (hv : Located.IsIn schemas ⟨v, place⟩) : (ofValue base place slot v).IsOver schemas := by
  cases v with
  | scalar x => exact .nil
  | list items =>
    cases slot with
    | list =>
      rw [ofValue]
      apply isOver_ofItems base place 0 items
      intro j w hw
      rw [Nat.zero_add]
      exact hv.part hw
    | schema => exact .nil
    | table => exact .nil
  | map entries =>
    have hentries : ∀ j e, entries[j]? = some e →
        Located.IsIn schemas ⟨e.2, { place with steps := (0 + j) :: place.steps }⟩ := by
      intro j e he
      rw [Nat.zero_add]
      apply hv.part
      simp [Value.part?, he]
    cases slot with
    | schema => exact (isOver_ofSchema hv).append (isOver_ofEntries _ place 0 _ entries hentries)
    | list => exact IsOver.nil.append (isOver_ofEntries _ place 0 _ entries hentries)
    | table => exact IsOver.nil.append (isOver_ofEntries _ place 0 _ entries hentries)

theorem isOver_ofItems (base : String) (place : Place) (index : Nat) (items : List Value)
    (hitems : ∀ j w, items[j]? = some w →
      Located.IsIn schemas ⟨w, { place with steps := (index + j) :: place.steps }⟩) :
    (ofItems base place index items).IsOver schemas := by
  cases items with
  | nil => exact .nil
  | cons v rest =>
    rw [ofItems]
    refine .append (isOver_ofValue _ _ _ v (hitems 0 v rfl)) ?_
    apply isOver_ofItems base place (index + 1) rest
    intro j w hw
    rw [Nat.add_assoc, Nat.add_comm 1 j]
    exact hitems (j + 1) w hw

theorem isOver_ofEntries (base : String) (place : Place) (index : Nat) (slot : Slot)
    (entries : List (Value × Value))
    (hentries : ∀ j e, entries[j]? = some e →
      Located.IsIn schemas ⟨e.2, { place with steps := (index + j) :: place.steps }⟩) :
    (ofEntries base place index slot entries).IsOver schemas := by
  cases entries with
  | nil => exact .nil
  | cons e rest =>
    obtain ⟨k, v⟩ := e
    rw [ofEntries.eq_def]
    refine .append ?_ ?_
    · split
      · exact isOver_ofValue _ _ _ v (hentries 0 (k, v) rfl)
      · exact .nil
    · apply isOver_ofEntries base place (index + 1) slot rest
      intro j e he
      rw [Nat.add_assoc, Nat.add_comm 1 j]
      exact hentries (j + 1) e he

end

end Survey

/-- All that a registry leads to is in the schemas. -/
structure Registry.IsOver (schemas : List Value) (r : Registry) : Prop where
  resources : ∀ e ∈ r.resources, e.2.IsIn schemas
  survey : r.survey.IsOver schemas

section Registry

theorem mem_of_lookup {α : Type} {key : String} {entries : List (String × α)} {a : α}
    (h : entries.lookup key = some a) : (key, a) ∈ entries := by
  obtain ⟨before, after, rfl, _⟩ := List.lookup_eq_some_iff.mp h
  exact List.mem_append_right _ List.mem_cons_self

theorem Registry.lastOfEach_sublist {α : Type} (entries : List (String × α)) :
    (lastOfEach entries).Sublist entries := by
  fun_induction lastOfEach entries with
  | case1 => exact .slnil
  | case2 e rest hagain ih => exact ih.cons e
  | case3 e rest hlast ih => exact ih.cons_cons e

/-- Of entries with different addresses all count. -/
theorem Registry.lastOfEach_eq_self {α : Type} {entries : List (String × α)}
    (h : (entries.map (·.1)).Nodup) : lastOfEach entries = entries := by
  fun_induction lastOfEach entries with
  | case1 => rfl
  | case2 e rest hagain ih =>
    obtain ⟨e', he', heq⟩ := List.any_eq_true.mp hagain
    exact absurd (List.mem_map.mpr ⟨e', he', beq_iff_eq.mp heq⟩) (List.nodup_cons.mp h).1
  | case3 e rest hlast ih => rw [ih (List.nodup_cons.mp h).2]

/-- Schemas with their places are registered by their addresses, in one or the other form. -/
theorem Registry.map_fst_zipIdx (form : String → String) (schemas : List (String × Value)) :
    ((schemas.zipIdx.map fun ((address, v), i) => (form address, (⟨v, ⟨i, []⟩⟩ : Located))).map
      (·.1)) = schemas.map fun e => form e.1 := by
  conv_rhs => rw [← List.zipIdx_map_fst 0 schemas, List.map_map]
  rw [List.map_map]
  rfl

variable {schemas : List Value} {r : Registry}

/-- A registry of schemas leads to these schemas and their parts. -/
theorem Registry.isOver_ofSchemas (schemas : List (String × Value)) :
    (Registry.ofSchemas schemas).IsOver (schemas.map (·.2)) := by
  unfold Registry.ofSchemas
  extract_lets located
  have hlocated : ∀ e ∈ located, e.2.IsIn (schemas.map (·.2)) := by
    intro e he
    obtain ⟨⟨⟨address, v⟩, i⟩, hmem, rfl⟩ := List.mem_map.mp he
    have hi : schemas[i]? = some (address, v) := List.mem_zipIdx_iff_getElem?.mp hmem
    simp [Located.IsIn, Place.value?, hi]
  constructor
  · intro e he
    exact hlocated e (List.mem_reverse.mp he)
  · refine List.foldlRecOn (motive := Survey.IsOver (schemas.map (·.2))) (lastOfEach located) _ .nil ?_
    intro acc hacc e he
    have hmem : e ∈ located := (lastOfEach_sublist located).subset he
    exact hacc.append (Survey.isOver_ofValue _ _ _ _ (hlocated e hmem))

theorem Registry.IsOver.of_find? (hr : r.IsOver schemas) {address : String} {s : Located}
    (h : r.find? address = some s) : s.IsIn schemas := by
  unfold Registry.find? at h
  cases hown : r.resources.lookup address with
  | some found =>
    rw [hown] at h
    cases h
    exact hr.resources _ (mem_of_lookup hown)
  | none =>
    rw [hown] at h
    exact hr.survey.resources _ (mem_of_lookup h)

theorem Registry.IsOver.of_anchor? (hr : r.IsOver schemas) {address name : String} {a : Anchor}
    (h : r.anchor? address name = .ok a) : a.target.IsIn schemas := by
  have hnamed {address : String} {b : Anchor} (hb : (r.survey.anchors.find? fun a =>
      a.address == address && a.name == name) = some b) : b.target.IsIn schemas :=
    hr.survey.anchors b (List.mem_of_find?_eq_some hb)
  unfold Registry.anchor? at h
  extract_lets named at h
  cases hown : named address with
  | some b =>
    rw [hown] at h
    cases h
    exact hnamed hown
  | none =>
    rw [hown] at h
    cases hfind : r.find? address with
    | none => simp [hfind] at h
    | some s =>
      rw [hfind] at h
      dsimp only at h
      cases hid : (idOf? s.value).toOption.join.bind named with
      | none => simp [hid] at h
      | some b =>
        rw [hid] at h
        cases h
        obtain ⟨id, _, hb⟩ := Option.bind_eq_some_iff.mp hid
        exact hnamed hb

end Registry

/-- The parts of a schema on the way along a pointer are in the same schemas. -/
theorem isIn_of_stepInto {schemas : List Value} {pointer step key : String} {s inner : Located}
    (hs : s.IsIn schemas) (h : stepInto pointer step s = .ok (key, inner)) :
    inner.IsIn schemas := by
  unfold stepInto at h
  split at h
  · next vs hvalue =>
    split at h
    · cases h
    · extract_lets i at h
      clear_value i
      split at h
      · next v hv =>
        cases h
        split at hv
        · cases hv
        · apply hs.part
          rw [hvalue]
          exact hv
      · cases h
  · next text hvalue =>
    split at h
    · cases h
    · extract_lets i at h
      clear_value i
      split at h
      · next c hc =>
        cases h
        split at hc
        · cases hc
        · apply hs.part
          rw [hvalue, Value.part?, hc]
          rfl
      · cases h
  · dsimp only at h
    split at h
    · next part hpart =>
      cases h
      exact hs.of_get? hpart
    · cases h
  · cases h

theorem isIn_of_followSteps {schemas : List Value} {pointer : String} {steps passed : List String}
    {s target : Located} {scope inner : Scope} (hs : s.IsIn schemas)
    (h : followSteps pointer steps passed s scope = .ok (target, inner)) :
    target.IsIn schemas := by
  induction steps generalizing passed s scope with
  | nil =>
    cases h
    exact hs
  | cons step rest ih =>
    obtain ⟨⟨key, part⟩, hpart, h⟩ := bind_eq_ok_iff.mp h
    dsimp only at h
    split at h
    all_goals
      obtain ⟨entered, _, h⟩ := bind_eq_ok_iff.mp h
      exact ih (isIn_of_stepInto hs hpart) h

theorem isIn_of_dynamicTarget {schemas : List Value} {r : Registry} (hr : r.IsOver schemas)
    {scope : Scope} {a : Anchor} (ha : a.target.IsIn schemas) {target : Located}
    (h : dynamicTarget r scope a = .ok target) : target.IsIn schemas := by
  unfold dynamicTarget at h
  generalize a.target = start at ha h
  generalize scope.previous = previous at h
  induction previous generalizing start with
  | nil =>
    cases h
    exact ha
  | cons address rest ih =>
    rw [List.foldlM_cons] at h
    obtain ⟨next, hnext, h⟩ := bind_eq_ok_iff.mp h
    refine ih next ?_ h
    split at hnext
    · next b hb =>
      cases hnext
      split
      · exact hr.of_anchor? hb
      · exact ha
    · cases hnext
      exact ha
    · cases hnext

/-- What a reference leads to is in the schemas of the registry. -/
theorem isIn_of_follow {schemas : List Value} {r : Registry} (hr : r.IsOver schemas)
    {scope inner : Scope} {reference : String} {target : Located}
    (h : follow r scope reference = .ok (target, inner)) : target.IsIn schemas := by
  unfold follow at h
  dsimp only at h
  split at h
  · cases h
  · next root hroot =>
    have hroot := hr.of_find? hroot
    split at h
    · exact isIn_of_followSteps hroot h
    · split at h
      · cases h
        exact hroot
      · obtain ⟨a, ha, h⟩ := bind_eq_ok_iff.mp h
        have ha := hr.of_anchor? ha
        split at h
        · obtain ⟨dynamic, hdynamic, h⟩ := bind_eq_ok_iff.mp h
          obtain ⟨entered, _, h⟩ := bind_eq_ok_iff.mp h
          cases h
          exact isIn_of_dynamicTarget hr ha hdynamic
        · cases h
          exact ha

end Schema

end BusinessModel
