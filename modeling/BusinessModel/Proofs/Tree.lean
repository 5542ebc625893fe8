import BusinessModel.Document.Content
import BusinessModel.Proofs.Pointer
import Mathlib.Data.List.Nodup
import Mathlib.Tactic.Common

/-!
Trees: values whose mappings have texts as keys, each of them once. The content of a document is one.
A pointer into a tree leads to one part of it at most, although it does not tell an index from a key
with the same digits.
-/

namespace BusinessModel

open Pointer

namespace Value

/-- The value has texts as keys throughout, and no key twice in a mapping. -/
inductive IsTree : Value → Prop where
  | scalar (s : Scalar) : IsTree (.scalar s)
  | list {items : List Value} (hitems : ∀ v ∈ items, v.IsTree) : IsTree (.list items)
  | map {entries : List (Value × Value)} {names : List String}
      (hnames : entries.map (·.1) = names.map .str) (hnodup : names.Nodup)
      (hvalues : ∀ e ∈ entries, e.2.IsTree) : IsTree (.map entries)

/-- A part of a value one step inside it. -/
inductive Step : Value → Segment → Value → Prop where
  | entry {entries : List (Value × Value)} {key : String} {v : Value}
      (hentry : (.str key, v) ∈ entries) : Step (.map entries) (.key key) v
  | item {items : List Value} {i : Nat} {v : Value} (hitem : items[i]? = some v) :
      Step (.list items) (.index i) v

/-- The way along segments into a value, and the part at its end. -/
inductive Leads : Value → List Segment → Value → Prop where
  | here (v : Value) : Leads v [] v
  | step {v inner found : Value} {s : Segment} {path : List Segment} (hstep : v.Step s inner)
      (tail : Leads inner path found) : Leads v (s :: path) found

/-- There is no way into a scalar. -/
theorem Leads.eq_of_scalar {s : Scalar} {path : List Segment} {found : Value}
    (h : (Value.scalar s).Leads path found) : found = .scalar s := by
  cases h with
  | here _ => rfl
  | step hstep _ => cases hstep

/-- A way goes on to what is one step inside its end. -/
theorem Leads.concat {v found inner : Value} {path : List Segment} {s : Segment}
    (h : v.Leads path found) (hstep : found.Step s inner) : v.Leads (path ++ [s]) inner := by
  induction h with
  | here _ => exact .step hstep (.here _)
  | step hfirst _ ih => exact .step hfirst (ih hstep)

/-- A pointer leads to a part of the value. -/
def PointsTo (v : Value) (pointer : String) (found : Value) : Prop :=
  ∃ path, v.Leads path found ∧ ofSegments path = pointer

theorem Leads.pointsTo {v found : Value} {path : List Segment} (h : v.Leads path found) :
    v.PointsTo (ofSegments path) found := ⟨path, h, rfl⟩

theorem IsTree.of_mem_items {items : List Value} (h : IsTree (.list items)) {v : Value}
    (hv : v ∈ items) : v.IsTree := by
  cases h with
  | list hitems => exact hitems v hv

theorem IsTree.of_mem_entries {entries : List (Value × Value)} (h : IsTree (.map entries))
    {k v : Value} (hv : (k, v) ∈ entries) : v.IsTree := by
  cases h with
  | map _ _ hvalues => exact hvalues _ hv

theorem IsTree.exists_key {entries : List (Value × Value)} (h : IsTree (.map entries))
    {k v : Value} (hv : (k, v) ∈ entries) : ∃ name, k = .str name := by
  cases h with
  | map hnames _ _ =>
    have hk : k ∈ entries.map (·.1) := List.mem_map_of_mem hv
    rw [hnames] at hk
    obtain ⟨name, _, rfl⟩ := List.mem_map.mp hk
    exact ⟨name, rfl⟩

/-- A key of a tree has one value. -/
theorem IsTree.value_unique {entries : List (Value × Value)} (h : IsTree (.map entries))
    {k v w : Value} (hv : (k, v) ∈ entries) (hw : (k, w) ∈ entries) : v = w := by
  cases h with
  | map hnames hnodup _ =>
    have hkeys : (entries.map (·.1)).Nodup := by
      rw [hnames]
      exact hnodup.map fun a b hab => by simpa using hab
    have heq := List.inj_on_of_nodup_map hkeys hv hw rfl
    exact congrArg Prod.snd heq

theorem IsTree.of_step {v inner : Value} {s : Segment} (h : v.IsTree) (hstep : v.Step s inner) :
    inner.IsTree := by
  cases hstep with
  | entry hentry => exact h.of_mem_entries hentry
  | item hitem => exact h.of_mem_items (List.mem_of_getElem? hitem)

theorem intText_natCast (n : Nat) : Text.intText n = Text.natText n := by
  rw [Text.intText, if_neg (by omega), Int.natAbs_natCast]

theorem natText_injective : Function.Injective Text.natText := by
  intro m n h
  have hdigits : Nat.toDigits 10 m = Nat.toDigits 10 n := String.ofList_injective h
  have hvalue := congrArg (Nat.ofDigitChars 10 · 0) hdigits
  simpa [Nat.ofDigitChars_toDigits] using hvalue

/-- The texts of the steps of a tree tell its parts apart. -/
theorem IsTree.eq_of_step {v w w' : Value} {s s' : Segment} (h : v.IsTree) (hs : v.Step s w)
    (hs' : v.Step s' w') (htext : s.text = s'.text) : w = w' := by
  cases hs with
  | entry hentry =>
    cases hs' with
    | entry hentry' =>
      cases htext
      exact h.value_unique hentry hentry'
  | item hitem =>
    cases hs' with
    | item hitem' =>
      rw [Segment.text, Segment.text, intText_natCast, intText_natCast] at htext
      have hindex := natText_injective htext
      rw [hindex, hitem'] at hitem
      exact (Option.some.inj hitem).symm

/-- Equal pointers into a tree lead to the same part. -/
theorem IsTree.eq_of_leads {v w w' : Value} {path path' : List Segment} (h : v.IsTree)
    (hw : v.Leads path w) (hw' : v.Leads path' w')
    (heq : ofSegments path = ofSegments path') : w = w' := by
  rw [ofSegments_eq_iff] at heq
  induction hw generalizing path' with
  | here v =>
    cases hw' with
    | here _ => rfl
    | step _ _ => cases heq
  | step hstep _ ih =>
    cases hw' with
    | here _ => cases heq
    | step hstep' htail' =>
      obtain ⟨htext, htail⟩ := List.cons.inj heq
      cases h.eq_of_step hstep hstep' htext
      exact ih (h.of_step hstep) htail' htail

end Value

namespace Content

/-- The keys stay as they are, but for a new one at the end. -/
private theorem map_fst_putEntry {entries : List (Value × Value)} {names : List String}
    (h : entries.map (·.1) = names.map .str) (key : String) (v : Value) :
    (putEntry entries key v).map (·.1) =
      (if key ∈ names then names else names ++ [key]).map .str := by
  induction entries generalizing names with
  | nil =>
    cases names with
    | nil => rfl
    | cons name rest => cases h
  | cons e rest ih =>
    obtain ⟨k, w⟩ := e
    cases names with
    | nil => cases h
    | cons name names =>
      obtain ⟨rfl, hrest⟩ := List.cons.inj h
      by_cases hname : name = key
      · simp [putEntry, hname, hrest]
      · have hput := ih hrest
        have hkey : key ≠ name := fun heq => hname heq.symm
        rw [putEntry]
        simp only [beq_iff_eq, hname, if_false, List.map_cons, hput, List.mem_cons, hkey, false_or]
        split <;> rfl

private theorem mem_putEntry {entries : List (Value × Value)} {key : String} {v : Value}
    {e : Value × Value} (h : e ∈ putEntry entries key v) : e ∈ entries ∨ e.2 = v := by
  induction entries with
  | nil => exact Or.inr (by rw [List.mem_singleton.mp h])
  | cons e' rest ih =>
    obtain ⟨k, w⟩ := e'
    have hmore (h : e ∈ (k, w) :: putEntry rest key v) : e ∈ (k, w) :: rest ∨ e.2 = v := by
      rcases List.mem_cons.mp h with rfl | h
      · exact Or.inl List.mem_cons_self
      · exact (ih h).imp_left (List.mem_cons_of_mem _)
    unfold putEntry at h
    split at h
    · split at h
      · rcases List.mem_cons.mp h with rfl | h
        · exact Or.inr rfl
        · exact Or.inl (List.mem_cons_of_mem _ h)
      · exact hmore h
    · exact hmore h

theorem isTree_putEntry {entries : List (Value × Value)} (h : Value.IsTree (.map entries))
    (key : String) {v : Value} (hv : v.IsTree) : Value.IsTree (.map (putEntry entries key v)) := by
  cases h with
  | map hnames hnodup hvalues =>
    refine .map (map_fst_putEntry hnames key v) ?_ fun e he => ?_
    · split
      · exact hnodup
      · next hnew =>
        refine List.nodup_append.mpr ⟨hnodup, List.nodup_singleton key, ?_⟩
        intro a ha b hb heq
        rw [heq, List.mem_singleton.mp hb] at ha
        exact hnew ha
    · rcases mem_putEntry he with he | he
      · exact hvalues e he
      · rw [he]
        exact hv

mutual

/-- The content of a document is a tree. -/
theorem isTree_toValue : ∀ c : Content, c.toValue.IsTree
  | .scalar s => .scalar s
  | .sequence items => .list (isTree_itemValues items)
  | .mapping entries => isTree_entryValues entries (@Value.IsTree.map [] [] rfl .nil (by simp))

theorem isTree_itemValues : ∀ items : List Content, ∀ v ∈ itemValues items, v.IsTree
  | [] => by simp [itemValues]
  | c :: rest => by
    intro v hv
    rcases List.mem_cons.mp hv with rfl | hv
    · exact isTree_toValue c
    · exact isTree_itemValues rest v hv

theorem isTree_entryValues : ∀ (entries : List (String × Content)) {before : List (Value × Value)},
    Value.IsTree (.map before) → Value.IsTree (.map (entryValues before entries))
  | [], _, h => h
  | (k, c) :: rest, _, h => isTree_entryValues rest (isTree_putEntry h k (isTree_toValue c))

end

end Content

end BusinessModel
