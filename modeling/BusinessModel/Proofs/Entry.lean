import BusinessModel.Proofs.Enumeration
import BusinessModel.Proofs.Pointer
import BusinessModel.Workspace.Entry

/-!
The entries of a content by their places. A place is the list of the child indices on the way down
from the root, so places in lexicographic order are places in preorder, and a key that occurs twice
in a mapping stands at two places. The walk through a content meets every entry once, in this order.
-/

namespace BusinessModel

open Pointer

namespace Content

/-- The way along child indices, the segments that it passes, and the content at its end. -/
inductive Leads : Content → List Nat → List Segment → Content → Prop where
  | here (c : Content) : Leads c [] [] c
  | item {items : List Content} {i : Nat} {c found : Content} {place : List Nat}
      {segments : List Segment} (hitem : items[i]? = some c)
      (tail : Leads c place segments found) :
      Leads (.sequence items) (i :: place) (.index i :: segments) found
  | entry {entries : List (String × Content)} {i : Nat} {key : String} {value found : Content}
      {place : List Nat} {segments : List Segment} (hentry : entries[i]? = some (key, value))
      (tail : Leads value place segments found) :
      Leads (.mapping entries) (i :: place) (.key key :: segments) found

theorem Leads.eq_of_nil {c found : Content} {place : List Nat} (h : Leads c place [] found) :
    place = [] ∧ c = found := by
  cases h
  exact ⟨rfl, rfl⟩

/-- A way leads through each part that it passes. -/
theorem Leads.exists_of_append {c found : Content} {place : List Nat}
    {segments more : List Segment} (h : Leads c place (segments ++ more) found) :
    ∃ place' passed, Leads c place' segments passed := by
  induction segments generalizing c place with
  | nil => exact ⟨[], c, .here c⟩
  | cons s segments ih =>
    cases h with
    | item hitem tail =>
      obtain ⟨place', passed, hleads⟩ := ih tail
      exact ⟨_, passed, .item hitem hleads⟩
    | entry hentry tail =>
      obtain ⟨place', passed, hleads⟩ := ih tail
      exact ⟨_, passed, .entry hentry hleads⟩

/-- An entry at a place in a content; the content itself stands at the end of the segments `base`.
The last step to an entry is by its key. -/
def EntryUnder (base : List Segment) (c : Content) (place : List Nat) (e : Entry) : Prop :=
  ∃ above, c.Leads place (above ++ [.key e.key]) e.value ∧
    e.path = ofSegments (base ++ above ++ [.key e.key])

/-- An entry inside an item of a sequence, the item being the one with number `n + i`. -/
private def EntryInItem (base : List Segment) (n : Nat) (items : List Content) (i : Nat)
    (place : List Nat) (e : Entry) : Prop :=
  ∃ c, items[i]? = some c ∧ c.EntryUnder (base ++ [.index ↑(n + i)]) place e

/-- An entry of a mapping, or an entry inside its value. -/
private def EntryInEntry (base : List Segment) (entries : List (String × Content)) (i : Nat)
    (place : List Nat) (e : Entry) : Prop :=
  ∃ key value, entries[i]? = some (key, value) ∧
    ((place = [] ∧ e = ⟨key, ofSegments (base ++ [.key key]), value⟩) ∨
      value.EntryUnder (base ++ [.key key]) place e)

theorem EntryUnder.ne_nil {base : List Segment} {c : Content} {place : List Nat} {e : Entry}
    (h : c.EntryUnder base place e) : place ≠ [] := by
  rintro rfl
  obtain ⟨above, hleads, _⟩ := h
  generalize hsegments : above ++ [Segment.key e.key] = segments at hleads
  cases hleads
  simp at hsegments

private theorem not_entryUnder_scalar (base : List Segment) (s : Scalar) (place : List Nat)
    (e : Entry) : ¬ (Content.scalar s).EntryUnder base place e := by
  rintro ⟨above, hleads, _⟩
  generalize hsegments : above ++ [Segment.key e.key] = segments at hleads
  generalize e.value = found at hleads
  cases hleads
  simp at hsegments

private theorem entryUnder_sequence (base : List Segment) (items : List Content)
    (place : List Nat) (e : Entry) :
    (Content.sequence items).EntryUnder base place e ↔
      InParts 0 (EntryInItem base 0 items) place e := by
  constructor
  · rintro ⟨above, hleads, hpath⟩
    generalize hsegments : above ++ [Segment.key e.key] = segments at hleads
    generalize hfound : e.value = found at hleads
    cases hleads with
    | here => simp at hsegments
    | @item _ i c _ inner segments hitem tail =>
      cases above with
      | nil => simp at hsegments
      | cons s above =>
        obtain ⟨rfl, rfl⟩ := List.cons.inj hsegments
        subst hfound
        refine ⟨i, inner, by rw [Nat.zero_add], c, hitem, above, tail, ?_⟩
        simpa using hpath
  · rintro ⟨i, inner, rfl, c, hitem, above, hleads, hpath⟩
    refine ⟨.index i :: above, ?_, ?_⟩
    · rw [Nat.zero_add]
      exact .item hitem hleads
    · simpa using hpath

private theorem entryUnder_mapping (base : List Segment) (entries : List (String × Content))
    (place : List Nat) (e : Entry) :
    (Content.mapping entries).EntryUnder base place e ↔
      InParts 0 (EntryInEntry base entries) place e := by
  constructor
  · rintro ⟨above, hleads, hpath⟩
    generalize hsegments : above ++ [Segment.key e.key] = segments at hleads
    generalize hfound : e.value = found at hleads
    cases hleads with
    | here => simp at hsegments
    | @entry _ i key value _ inner segments hentry tail =>
      refine ⟨i, inner, by rw [Nat.zero_add], key, value, hentry, ?_⟩
      cases above with
      | nil =>
        obtain ⟨hkey, rfl⟩ := List.cons.inj hsegments
        obtain ⟨rfl, hvalue⟩ := tail.eq_of_nil
        obtain ⟨key', path, value'⟩ := e
        cases hkey
        cases hvalue.trans hfound.symm
        exact Or.inl ⟨rfl, by simpa using hpath⟩
      | cons s above =>
        obtain ⟨rfl, rfl⟩ := List.cons.inj hsegments
        subst hfound
        exact Or.inr ⟨above, tail, by simpa using hpath⟩
  · rintro ⟨i, inner, rfl, key, value, hentry, ⟨rfl, rfl⟩ | ⟨above, hleads, hpath⟩⟩
    · refine ⟨[], ?_, by simp⟩
      rw [Nat.zero_add]
      exact .entry hentry (.here value)
    · refine ⟨.key key :: above, ?_, by simpa using hpath⟩
      rw [Nat.zero_add]
      exact .entry hentry hleads

-- The induction follows the walk: content, the items of a sequence, the entries of a mapping.
mutual

/-- The walk meets every entry of a content once, in preorder, each under its own pointer. -/
theorem walk_enumerates (base : List Segment) : ∀ c : Content,
    Enumerates (c.EntryUnder base) (c.walk (ofSegments base))
  | .scalar s => by
    rw [walk]
    exact .of_forall_not (not_entryUnder_scalar base s)
  | .sequence items => by
    rw [walk]
    exact (walkItems_enumerates base 0 items).congr fun place e =>
      (entryUnder_sequence base items place e).symm
  | .mapping entries => by
    rw [walk]
    exact (walkEntries_enumerates base 0 entries).congr fun place e =>
      (entryUnder_mapping base entries place e).symm

private theorem walkItems_enumerates (base : List Segment) (n : Nat) : ∀ items : List Content,
    Enumerates (InParts n (EntryInItem base n items)) (walkItems (ofSegments base) n items)
  | [] => by
    rw [walkItems]
    exact .inParts_nil (by simp [EntryInItem])
  | c :: rest => by
    rw [walkItems, join_ofSegments]
    have hfirst := walk_enumerates (base ++ [.index n]) c
    refine .inParts_cons (hfirst.congr fun place e => ?_)
      (walkItems_enumerates base (n + 1) rest) fun i place e => ?_
    · simp [EntryInItem]
    · have hnumber : n + (i + 1) = n + 1 + i := by omega
      simp [EntryInItem, hnumber]

private theorem walkEntries_enumerates (base : List Segment) (n : Nat) :
    ∀ entries : List (String × Content),
      Enumerates (InParts n (EntryInEntry base entries)) (walkEntries (ofSegments base) entries)
  | [] => by
    rw [walkEntries]
    exact .inParts_nil (by simp [EntryInEntry])
  | (key, value) :: rest => by
    rw [walkEntries, join_ofSegments, ← List.cons_append]
    have hvalue := walk_enumerates (base ++ [.key key]) value
    have hbefore (place : List Nat) (e : Entry)
        (he : value.EntryUnder (base ++ [.key key]) place e) : [] < place := by
      obtain ⟨i, inner, rfl⟩ := List.exists_cons_of_ne_nil he.ne_nil
      exact List.nil_lt_cons i inner
    have hfirst := hvalue.cons [] ⟨key, ofSegments (base ++ [.key key]), value⟩ hbefore
    refine .inParts_cons (hfirst.congr fun place e => ?_)
      (walkEntries_enumerates base (n + 1) rest) fun i place e => ?_
    · simp [EntryInEntry]
    · simp [EntryInEntry]

end

end Content

end BusinessModel
