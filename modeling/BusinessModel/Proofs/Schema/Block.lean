import BusinessModel.Proofs.Outcome
import BusinessModel.Schema.Metadata

/-!
What keeps a block of metadata from being read: entries asked of something that is no mapping,
members asked of something that has none, and numbers that are none.
-/

namespace BusinessModel.Schema

/-- Something is set where entries are asked for, and is no mapping. -/
def LacksEntries (block : Option Value) : Prop :=
  ∃ v, block = some v ∧ v.isSet = true ∧ v.isMap = false

/-- Something is set where members are asked for, and has none: it is no list, mapping or text. -/
def LacksMembers (collection : Option Value) : Prop :=
  ∃ v, collection = some v ∧ v.isSet = true ∧ v.members? = none

/-- The entries that a block is read with. -/
def entriesOf (block : Option Value) : List (Value × Value) := (block.map Value.entries).getD []

/-- Errors that a set of schemas is refused for. The others are passed on as they are. -/
inductive Malformed.IsRefused : Malformed → Prop where
  | invalid {report} : IsRefused (.invalid report)
  | missingKey {key} : IsRefused (.missingKey key)
  | badIndex {report} : IsRefused (.reference (.badIndex report))

namespace Block

theorem ends_entries (block : Option Value) :
    Ends (fun e => e = .noEntries ∧ LacksEntries block) (· = entriesOf block) (entries block) := by
  unfold entries
  split
  · exact .ok rfl
  · exact .ok rfl
  · next v hmap =>
    have hnot : v.isMap = false ∧ v.entries = [] := by
      cases v with
      | map es => exact absurd rfl (hmap es)
      | _ => exact ⟨rfl, rfl⟩
    split
    · next hset => exact .error ⟨rfl, v, rfl, hset, hnot.1⟩
    · exact .ok hnot.2.symm

theorem ends_members (collection : Option Value) :
    Ends (fun e => e = .wrongType ∧ LacksMembers collection)
      (· = (collection.bind Value.members?).getD []) (members collection) := by
  unfold members
  split
  · exact .ok rfl
  · exact .ok rfl
  · exact .ok rfl
  · exact .ok rfl
  · next v hlist hmap hstr =>
    have hnone : v.members? = none := by
      cases v with
      | map es => exact absurd rfl (hmap es)
      | list vs => exact absurd rfl (hlist vs)
      | scalar s =>
        cases s with
        | str text => exact absurd rfl (hstr text)
        | _ => rfl
    split
    · next hset => exact .error ⟨rfl, v, rfl, hset, hnone⟩
    · exact .ok (by simp [hnone])

/-- A block that is looked into for a word is absent, empty, or has to be a mapping if it may contain
the word. -/
theorem ends_entriesWith? (block : Option Value) (word : String) :
    Ends (fun e => e = .wrongType ∧ LacksEntries block)
      (fun found => ∀ es, found = some es → es = entriesOf block) (entriesWith? block word) := by
  cases block with
  | none => exact .ok (by simp)
  | some v =>
    unfold entriesWith?
    dsimp only
    cases hset : v.isSet with
    | false => exact .ok (by simp)
    | true =>
      cases v with
      | map es =>
        refine .bind (.ok (a := (Value.lookup word es).isSome) trivial) fun found (_ : True) => ?_
        cases found with
        | false => exact .ok (by simp)
        | true => exact .ok fun _ h => (Option.some.inj h).symm
      | list vs =>
        have hlacks : LacksEntries (some (.list vs)) := ⟨_, rfl, hset, rfl⟩
        refine .bind (.ok (a := vs.any (Value.str word).same) trivial) fun found (_ : True) => ?_
        cases found with
        | false => exact .ok (by simp)
        | true => exact .error ⟨rfl, hlacks⟩
      | scalar x =>
        have hlacks : LacksEntries (some (.scalar x)) := ⟨_, rfl, hset, rfl⟩
        cases x with
        | str text =>
          refine .bind (.ok (a := hasWord word.toList text.toList) trivial)
            fun found (_ : True) => ?_
          cases found with
          | false => exact .ok (by simp)
          | true => exact .error ⟨rfl, hlacks⟩
        | _ => exact .error ⟨rfl, hlacks⟩

/-- What is asked for a whole number and is refused, or is neither a number nor a text, or has no
end. -/
theorem ends_wholeNumber (v : Value) :
    Ends (fun e => e.IsRefused ∨ (e = .infinite ∧ ∃ negative, v = .float (.infinite negative)) ∨
        (e = .wrongType ∧ (v = .null ∨ v.isMap = true ∨ ∃ vs, v = .list vs)))
      (fun _ => True) (wholeNumber v) := by
  cases v with
  | list vs => exact .error (.inr (.inr ⟨rfl, .inr (.inr ⟨vs, rfl⟩)⟩))
  | map es => exact .error (.inr (.inr ⟨rfl, .inr (.inl rfl)⟩))
  | scalar x =>
    cases x with
    | null => exact .error (.inr (.inr ⟨rfl, .inl rfl⟩))
    | int n => exact .ok trivial
    | bool b => exact .ok trivial
    | str text =>
      rw [wholeNumber]
      cases integerOfText text with
      | ok n => exact .ok trivial
      | error report => exact .error (.inl .invalid)
    | float x =>
      cases x with
      | nan => exact .error (.inl .invalid)
      | infinite negative => exact .error (.inr (.inl ⟨rfl, negative, rfl⟩))
      | finite negative mantissa exponent => exact .ok trivial

/-- The first member of what is set is missing only if there are no members. -/
theorem ends_first {v : Value} (hset : v.isSet = true) :
    Ends (fun e => e.IsRefused ∨ (e = .wrongType ∧ v.members? = none)) (fun _ => True) (first v) := by
  cases v with
  | list vs =>
    cases vs with
    | nil => cases hset
    | cons x rest => exact .ok trivial
  | map es =>
    rw [first]
    cases Value.lookupScalar (.int 0) es with
    | some x => exact .ok trivial
    | none => exact .error (.inl .missingKey)
  | scalar x =>
    cases x with
    | str text =>
      rw [first]
      cases htext : text.toList with
      | cons c rest => exact .ok trivial
      | nil =>
        rw [String.toList_eq_nil_iff.mp htext] at hset
        cases hset
    | _ => exact .error (.inr ⟨rfl, rfl⟩)

end Block

end BusinessModel.Schema
