import BusinessModel.Text.Distance
import Mathlib.Data.List.Induction
import Mathlib.Order.Bounds.Basic
import Mathlib.Order.MinMax

/-!
The distance of two texts is the least number of edits that turn one into the other.

An edit may change any place of a text, and a script is any sequence of edits. The rows of distances
are about alignments instead, which go through both texts from left to right: what an alignment costs
can be computed from what is in front of its last step. A script of any length can be put in the order
of an alignment that costs no more, so the least costs are the same.
-/

namespace BusinessModel.Text

/-! ### Scripts -/

/-- One character is inserted, deleted or replaced anywhere in a text. -/
inductive Edit : List Char → List Char → Prop where
  | insert (front : List Char) (c : Char) (back : List Char) :
      Edit (front ++ back) (front ++ c :: back)
  | delete (front : List Char) (c : Char) (back : List Char) :
      Edit (front ++ c :: back) (front ++ back)
  | replace (front : List Char) (c d : Char) (back : List Char) :
      Edit (front ++ c :: back) (front ++ d :: back)

/-- A number of edits, one after the other, that turn one text into another. -/
inductive Script : List Char → List Char → Nat → Prop where
  | done (as : List Char) : Script as as 0
  | edit {as bs cs : List Char} {n : Nat} (first : Edit as bs) (rest : Script bs cs n) :
      Script as cs (n + 1)

theorem Edit.append {as bs : List Char} (h : Edit as bs) (more : List Char) :
    Edit (as ++ more) (bs ++ more) := by
  cases h with
  | insert front c back => simpa using Edit.insert front c (back ++ more)
  | delete front c back => simpa using Edit.delete front c (back ++ more)
  | replace front c d back => simpa using Edit.replace front c d (back ++ more)

theorem Script.append {as bs : List Char} {n : Nat} (h : Script as bs n) (more : List Char) :
    Script (as ++ more) (bs ++ more) n := by
  induction h with
  | done as => exact .done (as ++ more)
  | edit first _ ih => exact .edit (first.append more) ih

theorem Script.concat {as bs cs : List Char} {n : Nat} (h : Script as bs n) (last : Edit bs cs) :
    Script as cs (n + 1) := by
  induction h with
  | done bs => exact .edit last (.done cs)
  | edit first _ ih => exact .edit first (ih last)

/-! ### Alignments -/

/-- Two texts are gone through from left to right: a character of either is passed alone, which costs
one, or one of each is passed, which costs one unless they are the same. -/
inductive Aligned : List Char → List Char → Nat → Prop where
  | nil : Aligned [] [] 0
  | insert {as bs : List Char} {n : Nat} (h : Aligned as bs n) (b : Char) :
      Aligned as (bs ++ [b]) (n + 1)
  | delete {as bs : List Char} {n : Nat} (h : Aligned as bs n) (a : Char) :
      Aligned (as ++ [a]) bs (n + 1)
  | pair {as bs : List Char} {n : Nat} (h : Aligned as bs n) (a b : Char) :
      Aligned (as ++ [a]) (bs ++ [b]) (if a = b then n else n + 1)

namespace Aligned

variable {as bs cs : List Char} {n : Nat}

/-- What an alignment does can be done by a script, from left to right. -/
theorem script (h : Aligned as bs n) : Script as bs n := by
  induction h with
  | nil => exact .done []
  | @insert as bs n _ b ih => exact ih.concat (by simpa using Edit.insert bs b [])
  | @delete as bs n _ a ih =>
    exact (ih.append [a]).concat (by simpa using Edit.delete bs a [])
  | @pair as bs n _ a b ih =>
    split
    · next hab =>
      subst hab
      exact ih.append [a]
    · exact (ih.append [a]).concat (Edit.replace bs a b [])

theorem symm (h : Aligned as bs n) : Aligned bs as n := by
  induction h with
  | nil => exact .nil
  | insert _ b ih => exact ih.delete b
  | delete _ a ih => exact ih.insert a
  | pair _ a b ih => simpa only [eq_comm] using ih.pair b a

theorem refl (as : List Char) : Aligned as as 0 := by
  induction as using List.reverseRecOn with
  | nil => exact .nil
  | append_singleton as a ih => simpa using ih.pair a a

/-- A text is made of nothing by inserting its characters. -/
theorem ofNil (bs : List Char) : Aligned [] bs bs.length := by
  induction bs using List.reverseRecOn with
  | nil => exact .nil
  | append_singleton bs b ih => simpa using ih.insert b

/-- Every character beyond the length of the other text is inserted. -/
theorem length_le (h : Aligned as bs n) : bs.length ≤ as.length + n := by
  induction h with
  | nil => simp
  | insert _ b ih => simp only [List.length_append, List.length_singleton]; omega
  | delete _ a ih => simp only [List.length_append, List.length_singleton]; omega
  | pair _ a b ih =>
    simp only [List.length_append, List.length_singleton]
    split <;> omega

theorem append {as' bs' : List Char} {n' : Nat} (h : Aligned as bs n) (h' : Aligned as' bs' n') :
    Aligned (as ++ as') (bs ++ bs') (n + n') := by
  induction h' with
  | nil => simpa using h
  | insert _ b ih => simpa [Nat.add_assoc] using ih.insert b
  | delete _ a ih => simpa [Nat.add_assoc] using ih.delete a
  | @pair _ _ n' _ a b ih =>
    have hcost : n + (if a = b then n' else n' + 1) = if a = b then n + n' else n + n' + 1 := by
      split <;> omega
    rw [hcost]
    simpa using ih.pair a b

/-- An alignment can be cut wherever one of the texts is. -/
theorem exists_split {front back : List Char} (h : Aligned (front ++ back) bs n) :
    ∃ bs₁ bs₂ n₁ n₂, bs = bs₁ ++ bs₂ ∧ n = n₁ + n₂ ∧ Aligned front bs₁ n₁ ∧ Aligned back bs₂ n₂ := by
  generalize hwhole : front ++ back = as at h
  induction h generalizing back with
  | nil =>
    obtain ⟨rfl, rfl⟩ := List.append_eq_nil_iff.mp hwhole
    exact ⟨[], [], 0, 0, rfl, rfl, .nil, .nil⟩
  | insert _ b ih =>
    obtain ⟨bs₁, bs₂, n₁, n₂, rfl, rfl, hfront, hback⟩ := ih hwhole
    exact ⟨bs₁, bs₂ ++ [b], n₁, n₂ + 1, by simp, by omega, hfront, hback.insert b⟩
  | @delete as bs n h a ih =>
    rcases List.eq_nil_or_concat back with rfl | ⟨back, a', rfl⟩
    · rw [List.append_nil] at hwhole
      exact ⟨bs, [], n + 1, 0, by simp, rfl, hwhole ▸ h.delete a, .nil⟩
    · rw [List.concat_eq_append, ← List.append_assoc] at hwhole
      obtain ⟨hfront, hlast⟩ := List.append_inj' hwhole rfl
      cases hlast
      obtain ⟨bs₁, bs₂, n₁, n₂, rfl, rfl, hfront, hback⟩ := ih hfront
      exact ⟨bs₁, bs₂, n₁, n₂ + 1, rfl, by omega, hfront, by simpa using hback.delete a⟩
  | @pair as bs n h a b ih =>
    rcases List.eq_nil_or_concat back with rfl | ⟨back, a', rfl⟩
    · rw [List.append_nil] at hwhole
      exact ⟨bs ++ [b], [], _, 0, by simp, rfl, hwhole ▸ h.pair a b, .nil⟩
    · rw [List.concat_eq_append, ← List.append_assoc] at hwhole
      obtain ⟨hfront, hlast⟩ := List.append_inj' hwhole rfl
      cases hlast
      obtain ⟨bs₁, bs₂, n₁, n₂, rfl, rfl, hfront, hback⟩ := ih hfront
      refine ⟨bs₁, bs₂ ++ [b], n₁, _, by simp, ?_, hfront, by simpa using hback.pair a b⟩
      split <;> omega

/-- If one character has an alignment, so has any other or none in its place, at a cost of one more at
most. -/
theorem exists_of_short {c : Char} (h : Aligned [c] bs n) {word : List Char}
    (hword : word.length ≤ 1) : ∃ n' ≤ n + 1, Aligned word bs n' := by
  have hlength : bs.length ≤ n + 1 := by
    have := h.length_le
    simp only [List.length_singleton] at this
    omega
  match word, hword with
  | [], _ => exact ⟨bs.length, hlength, ofNil bs⟩
  | [d], _ =>
    rcases List.eq_nil_or_concat bs with rfl | ⟨bs, b, rfl⟩
    · exact ⟨1, by omega, nil.delete d⟩
    · rw [List.concat_eq_append] at hlength ⊢
      refine ⟨_, ?_, (ofNil bs).pair d b⟩
      simp only [List.length_append, List.length_singleton] at hlength
      split <;> omega

/-- An edit in front of an alignment becomes part of it. -/
theorem exists_of_edit (hedit : Edit as bs) (h : Aligned bs cs n) :
    ∃ n' ≤ n + 1, Aligned as cs n' := by
  -- An inserted or replaced character stands alone between the parts of the text around it.
  have hbetween (word : List Char) (hword : word.length ≤ 1) {front back : List Char} {d : Char}
      (h : Aligned (front ++ ([d] ++ back)) cs n) :
      ∃ n' ≤ n + 1, Aligned (front ++ (word ++ back)) cs n' := by
    obtain ⟨cs₁, rest, n₁, m, rfl, rfl, hfront, hrest⟩ := h.exists_split
    obtain ⟨cs₂, cs₃, n₂, n₃, rfl, rfl, hmiddle, hback⟩ := hrest.exists_split
    obtain ⟨n₂', hcost, hword⟩ := hmiddle.exists_of_short hword
    exact ⟨n₁ + (n₂' + n₃), by omega, hfront.append (hword.append hback)⟩
  cases hedit with
  | insert front c back => exact hbetween [] (by simp) h
  | replace front c d back => exact hbetween [c] (by simp) h
  | delete front c back =>
    obtain ⟨cs₁, cs₂, n₁, n₂, rfl, rfl, hfront, hback⟩ := h.exists_split
    have hcut := hfront.append ((nil.delete c).append hback)
    exact ⟨n₁ + (1 + n₂), by omega, by simpa using hcut⟩

end Aligned

/-- Whatever a script does, an alignment does at no greater cost. -/
theorem Script.exists_aligned {as bs : List Char} {n : Nat} (h : Script as bs n) :
    ∃ n' ≤ n, Aligned as bs n' := by
  induction h with
  | done as => exact ⟨0, Nat.le_refl 0, .refl as⟩
  | edit first _ ih =>
    obtain ⟨m, hm, haligned⟩ := ih
    obtain ⟨n', hn', haligned'⟩ := haligned.exists_of_edit first
    exact ⟨n', by omega, haligned'⟩

/-! ### Rows of distances -/

/-- The least cost of an alignment. -/
def LeastCost (as bs : List Char) (n : Nat) : Prop := IsLeast {k | Aligned as bs k} n

theorem LeastCost.symm {as bs : List Char} {n : Nat} (h : LeastCost as bs n) : LeastCost bs as n :=
  ⟨h.1.symm, fun _ hk => h.2 (Aligned.symm hk)⟩

theorem leastCost_nil (bs : List Char) : LeastCost [] bs bs.length :=
  ⟨.ofNil bs, fun k hk => by simpa using Aligned.length_le hk⟩

/-- The last step of an alignment of two texts that are not empty. -/
theorem Aligned.last_cases {as bs : List Char} {a b : Char} {n : Nat}
    (h : Aligned (as ++ [a]) (bs ++ [b]) n) :
    (∃ m, Aligned as (bs ++ [b]) m ∧ n = m + 1) ∨ (∃ m, Aligned (as ++ [a]) bs m ∧ n = m + 1) ∨
      ∃ m, Aligned as bs m ∧ n = if a = b then m else m + 1 := by
  generalize has : as ++ [a] = as' at h
  generalize hbs : bs ++ [b] = bs' at h
  cases h with
  | nil => simp at has
  | insert h b' =>
    obtain ⟨rfl, heq⟩ := List.append_inj' hbs rfl
    exact .inr (.inl ⟨_, h, rfl⟩)
  | delete h a' =>
    obtain ⟨rfl, heq⟩ := List.append_inj' has rfl
    exact .inl ⟨_, h, rfl⟩
  | pair h a' b' =>
    obtain ⟨rfl, heq⟩ := List.append_inj' has rfl
    obtain ⟨rfl, heq'⟩ := List.append_inj' hbs rfl
    cases heq
    cases heq'
    exact .inr (.inr ⟨_, h, rfl⟩)

/-- The least cost of longer texts from those of the texts without their last characters. -/
theorem LeastCost.concat {as bs : List Char} {a b : Char} {above left diagonal : Nat}
    (habove : LeastCost as (bs ++ [b]) above) (hleft : LeastCost (as ++ [a]) bs left)
    (hdiagonal : LeastCost as bs diagonal) :
    LeastCost (as ++ [a]) (bs ++ [b])
      (min (min (above + 1) (left + 1)) (if a == b then diagonal else diagonal + 1)) := by
  simp only [beq_iff_eq]
  constructor
  · rcases min_choice (min (above + 1) (left + 1)) (if a = b then diagonal else diagonal + 1)
      with hmin | hmin
    · rw [hmin]
      rcases min_choice (above + 1) (left + 1) with hmin | hmin
      · rw [hmin]
        exact habove.1.delete a
      · rw [hmin]
        exact hleft.1.insert b
    · rw [hmin]
      exact hdiagonal.1.pair a b
  · intro k hk
    rcases Aligned.last_cases hk with ⟨m, hm, rfl⟩ | ⟨m, hm, rfl⟩ | ⟨m, hm, rfl⟩
    · have := habove.2 hm
      omega
    · have := hleft.2 hm
      omega
    · have := hdiagonal.2 hm
      split <;> omega

/-- The row of the least costs of aligning `as` with `front` and with all longer beginnings of
`front ++ bs`. -/
inductive IsRow (as : List Char) : List Char → List Char → List Nat → Prop where
  | last {front : List Char} {n : Nat} (h : LeastCost as front n) : IsRow as front [] [n]
  | cons {front bs : List Char} {b : Char} {n : Nat} {row : List Nat} (h : LeastCost as front n)
      (rest : IsRow as (front ++ [b]) bs row) : IsRow as front (b :: bs) (n :: row)

namespace IsRow

variable {as front bs : List Char} {row : List Nat}

/-- The row that computation starts from. -/
theorem range (front bs : List Char) :
    IsRow [] front bs (List.range' front.length (bs.length + 1)) := by
  induction bs generalizing front with
  | nil => exact .last (leastCost_nil front)
  | cons b bs ih =>
    refine .cons (leastCost_nil front) ?_
    simpa [List.range'_succ] using ih (front ++ [b])

/-- One more character of the first text: the next row is computed from left to right. -/
theorem nextDistances {a : Char} {left : Nat} (h : IsRow as front bs row)
    (hleft : LeastCost (as ++ [a]) front left) :
    IsRow (as ++ [a]) front bs (left :: Text.nextDistances a bs row left) := by
  induction h generalizing left with
  | last h => exact .last hleft
  | cons h rest ih =>
    cases rest with
    | last habove => exact .cons hleft (ih (habove.concat hleft h))
    | cons habove _ => exact .cons hleft (ih (habove.concat hleft h))

theorem nextRow {a : Char} (h : IsRow as [] bs row) : IsRow (as ++ [a]) [] bs (Text.nextRow bs row a) := by
  have hfirst {n : Nat} (hn : LeastCost as [] n) : LeastCost (as ++ [a]) [] (n + 1) := by
    have hlength := leastCost_nil (as ++ [a])
    rw [List.length_append, List.length_singleton, IsLeast.unique (leastCost_nil as) hn.symm]
      at hlength
    exact hlength.symm
  cases h with
  | last hn => exact (IsRow.last hn).nextDistances (hfirst hn)
  | cons hn rest => exact (IsRow.cons hn rest).nextDistances (hfirst hn)

theorem foldl_nextRow (more : List Char) (h : IsRow as [] bs row) :
    IsRow (as ++ more) [] bs (more.foldl (Text.nextRow bs) row) := by
  induction more generalizing as row with
  | nil => simpa using h
  | cons a more ih => simpa using ih (h.nextRow (a := a))

/-- The last distance of a row is that to the whole second text. -/
theorem leastCost_getLast (h : IsRow as front bs row) :
    LeastCost as (front ++ bs) (row.getLast?.getD 0) := by
  induction h with
  | last h => simpa using h
  | cons h rest ih =>
    cases rest with
    | last _ => simpa using ih
    | cons _ _ => simpa using ih

end IsRow

theorem distanceOf_leastCost (as bs : List Char) : LeastCost as bs (distanceOf as bs) := by
  have hfirst : IsRow [] [] bs (List.range (bs.length + 1)) := by
    simpa [List.range_eq_range'] using IsRow.range [] bs
  exact (hfirst.foldl_nextRow as).leastCost_getLast

/-- The distance of two texts is the least number of insertions, deletions and replacements of single
characters that turn the first into the second. -/
theorem distance_isLeast_script (a b : String) :
    IsLeast {n | Script a.toList b.toList n} (distance a b) := by
  have hleast : LeastCost a.toList b.toList (distance a b) := by
    unfold distance
    split
    · exact (distanceOf_leastCost b.toList a.toList).symm
    · exact distanceOf_leastCost a.toList b.toList
  refine ⟨hleast.1.script, fun n hn => ?_⟩
  obtain ⟨n', hle, haligned⟩ := Script.exists_aligned hn
  exact Nat.le_trans (hleast.2 haligned) hle

example : distance "kitten" "sitting" = 3 := by decide

end BusinessModel.Text
