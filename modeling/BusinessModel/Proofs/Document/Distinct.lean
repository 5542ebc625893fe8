import BusinessModel.Proofs.Entry
import BusinessModel.Proofs.Tree

/-!
Content in which no mapping has a key twice. Its entries are those of its value, so the ways into the
one are ways into the other, and a pointer tells the way.
-/

namespace BusinessModel

open Pointer Value

namespace Content

/-- No mapping in the content has a key twice. -/
inductive IsDistinct : Content → Prop where
  | scalar (s : Scalar) : IsDistinct (.scalar s)
  | sequence {items : List Content} (hitems : ∀ c ∈ items, c.IsDistinct) :
      IsDistinct (.sequence items)
  | mapping {entries : List (String × Content)} (hkeys : (entries.map (·.1)).Nodup)
      (hvalues : ∀ e ∈ entries, e.2.IsDistinct) : IsDistinct (.mapping entries)

mutual

/-- Whether no mapping in the content has a key twice. -/
def isDistinct : Content → Bool
  | .scalar _ => true
  | .sequence items => areItemsDistinct items
  | .mapping entries => decide (entries.map (·.1)).Nodup && areEntriesDistinct entries

/-- Whether no mapping in the items has a key twice. -/
def areItemsDistinct : List Content → Bool
  | [] => true
  | c :: rest => c.isDistinct && areItemsDistinct rest

/-- Whether no mapping in the values of entries has a key twice. -/
def areEntriesDistinct : List (String × Content) → Bool
  | [] => true
  | (_, c) :: rest => c.isDistinct && areEntriesDistinct rest

end

mutual

/-- What is tested holds. -/
theorem isDistinct_of_test : ∀ c : Content, c.isDistinct = true → c.IsDistinct
  | .scalar s, _ => .scalar s
  | .sequence items, h => .sequence (isDistinct_of_mem_items items h)
  | .mapping entries, h => by
    obtain ⟨hkeys, hvalues⟩ := Bool.and_eq_true_iff.mp h
    exact .mapping (of_decide_eq_true hkeys) (isDistinct_of_mem_entries entries hvalues)

private theorem isDistinct_of_mem_items : ∀ items : List Content, areItemsDistinct items = true →
    ∀ c ∈ items, c.IsDistinct
  | [], _ => by simp
  | c :: rest, h => by
    obtain ⟨hc, hrest⟩ := Bool.and_eq_true_iff.mp h
    exact List.forall_mem_cons.mpr
      ⟨isDistinct_of_test c hc, isDistinct_of_mem_items rest hrest⟩

private theorem isDistinct_of_mem_entries : ∀ entries : List (String × Content),
    areEntriesDistinct entries = true → ∀ e ∈ entries, e.2.IsDistinct
  | [], _ => by simp
  | (_, c) :: rest, h => by
    obtain ⟨hc, hrest⟩ := Bool.and_eq_true_iff.mp h
    exact List.forall_mem_cons.mpr
      ⟨isDistinct_of_test c hc, isDistinct_of_mem_entries rest hrest⟩

end

theorem putEntry_of_notMem {names : List (String × Value)} {key : String} {v : Value}
    (h : key ∉ names.map (·.1)) :
    putEntry (names.map fun e => (.str e.1, e.2)) key v =
      (names ++ [(key, v)]).map fun e => (.str e.1, e.2) := by
  induction names with
  | nil => rfl
  | cons e rest ih =>
    rw [List.map_cons, List.mem_cons, not_or] at h
    have hkey : (e.1 == key) = false := beq_eq_false_iff_ne.mpr fun heq => h.1 heq.symm
    simp only [List.map_cons, List.cons_append, putEntry, hkey, ih h.2]
    rfl

/-- Of distinct keys, each makes an entry of the value. -/
theorem entryValues_of_nodup {names : List (String × Value)} {entries : List (String × Content)}
    (h : (names.map (·.1) ++ entries.map (·.1)).Nodup) :
    entryValues (names.map fun e => (.str e.1, e.2)) entries =
      (names ++ entries.map fun e => (e.1, e.2.toValue)).map fun e => (.str e.1, e.2) := by
  induction entries generalizing names with
  | nil => simp [entryValues]
  | cons e rest ih =>
    have hfresh : e.1 ∉ names.map (·.1) := fun hmem =>
      (List.nodup_append.mp h).2.2 _ hmem _ List.mem_cons_self rfl
    rw [entryValues, putEntry_of_notMem hfresh, ih (by simpa using h)]
    simp

theorem toValue_mapping {entries : List (String × Content)} (h : (entries.map (·.1)).Nodup) :
    (mapping entries).toValue = .map (entries.map fun e => (.str e.1, e.2.toValue)) := by
  have hvalues := @entryValues_of_nodup [] entries (by simpa using h)
  rw [List.nil_append, List.map_map] at hvalues
  rw [toValue]
  exact congrArg Value.map hvalues

theorem itemValues_eq (items : List Content) : itemValues items = items.map toValue := by
  induction items with
  | nil => rfl
  | cons c rest ih => rw [itemValues, ih, List.map_cons]

/-- The way to a part of the content leads to its value. -/
theorem Leads.toValue {c found : Content} {place : List Nat} {segments : List Segment}
    (h : c.Leads place segments found) (hdistinct : c.IsDistinct) :
    c.toValue.Leads segments found.toValue := by
  induction h with
  | here c => exact .here _
  | item hitem _ ih =>
    cases hdistinct with
    | sequence hitems =>
      refine .step (.item ?_) (ih (hitems _ (List.mem_of_getElem? hitem)))
      rw [itemValues_eq, List.getElem?_map, hitem]
      rfl
  | entry hentry _ ih =>
    cases hdistinct with
    | mapping hkeys hvalues =>
      have hmem := List.mem_of_getElem? hentry
      rw [toValue_mapping hkeys]
      exact .step (.entry (List.mem_map.mpr ⟨_, hmem, rfl⟩)) (ih (hvalues _ hmem))

/-- A pointer into a content tells the way. -/
theorem Leads.eq_of_ofSegments {c found found' : Content} {place place' : List Nat}
    {segments segments' : List Segment} (h : c.Leads place segments found)
    (h' : c.Leads place' segments' found') (hdistinct : c.IsDistinct)
    (heq : ofSegments segments = ofSegments segments') :
    place = place' ∧ segments = segments' ∧ found = found' := by
  rw [ofSegments_eq_iff] at heq
  induction h generalizing place' segments' with
  | here c =>
    cases h' with
    | here _ => exact ⟨rfl, rfl, rfl⟩
    | item _ _ => cases heq
    | entry _ _ => cases heq
  | item hitem _ ih =>
    cases h' with
    | here _ => cases heq
    | item hitem' htail' =>
      obtain ⟨htext, htail⟩ := List.cons.inj heq
      rw [Segment.text, Segment.text, intText_natCast, intText_natCast] at htext
      cases natText_injective htext
      cases hitem.symm.trans hitem'
      cases hdistinct with
      | sequence hitems =>
        obtain ⟨rfl, rfl, hfound⟩ := ih htail' (hitems _ (List.mem_of_getElem? hitem)) htail
        exact ⟨rfl, rfl, hfound⟩
  | entry hentry _ ih =>
    cases h' with
    | here _ => cases heq
    | entry hentry' htail' =>
      obtain ⟨htext, htail⟩ := List.cons.inj heq
      cases htext
      cases hdistinct with
      | mapping hkeys hvalues =>
        have hmem := List.mem_of_getElem? hentry
        cases List.inj_on_of_nodup_map hkeys hmem (List.mem_of_getElem? hentry') rfl
        obtain rfl := (List.getElem?_inj (List.getElem?_eq_some_iff.mp hentry).1
          (List.Nodup.of_map _ hkeys)).mp (hentry.trans hentry'.symm)
        obtain ⟨rfl, rfl, hfound⟩ := ih htail' (hvalues _ hmem) htail
        exact ⟨rfl, rfl, hfound⟩

/-- The entries of a content stand under pointers of their own. -/
theorem IsDistinct.nodup_walk {c : Content} (h : c.IsDistinct) :
    ((c.walk "").map (·.path)).Nodup := by
  refine (walk_enumerates [] c).nodup_map ?_
  rintro place e place' e' ⟨above, hleads, hpath⟩ ⟨above', hleads', hpath'⟩ heq
  rw [hpath, hpath'] at heq
  exact (hleads.eq_of_ofSegments hleads' h heq).1

end Content

end BusinessModel
