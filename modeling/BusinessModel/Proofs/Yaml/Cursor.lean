import BusinessModel.Yaml.Cursor
import Mathlib.Data.List.Basic
import Mathlib.Tactic.Common

/-!
Going through characters. A cursor that passes characters has what follows them left to read; the
line, the column and the number of characters passed add up.
-/

namespace BusinessModel.Yaml.Cursor

/-- A character that moves the cursor by one column: no line ends with it, and it is no mark of the
byte order. -/
def isPrinted (ch : Char) : Bool := ch != '\n' && ch != '\r' && ch != byteOrderMark

variable {c c' c'' : Cursor} {ch : Char} {cs w w' r : List Char}

theorem rest_next (h : c.rest = ch :: r) : c.next.rest = r := by
  unfold next
  split
  · next hnil => rw [hnil] at h; cases h
  · next ch' rest hcons =>
    rw [hcons] at h
    obtain ⟨rfl, rfl⟩ := List.cons.inj h
    split
    · rfl
    · split <;> rfl

theorem index_next (h : c.rest = ch :: r) : c.next.index = c.index + 1 := by
  unfold next
  split
  · next hnil => rw [hnil] at h; cases h
  · split
    · rfl
    · split <;> rfl

theorem line_le_next (c : Cursor) : c.line ≤ c.next.line := by
  unfold next
  split
  · exact Nat.le_refl _
  · split
    · exact Nat.le_succ _
    · split <;> exact Nat.le_refl _

theorem next_of_isPrinted (h : c.rest = ch :: r) (hch : isPrinted ch = true) :
    c.next.line = c.line ∧ c.next.column = c.column + 1 := by
  simp only [isPrinted, Bool.and_eq_true, bne_iff_ne, ne_eq] at hch
  unfold next
  split
  · next hnil => rw [hnil] at h; cases h
  · next ch' rest hcons =>
    rw [hcons] at h
    obtain ⟨rfl, rfl⟩ := List.cons.inj h
    simp [hch]

theorem next_of_lineFeed (h : c.rest = '\n' :: r) :
    c.next.line = c.line + 1 ∧ c.next.column = 0 := by
  unfold next
  split
  · next hnil => rw [hnil] at h; cases h
  · next ch' rest hcons =>
    rw [hcons] at h
    obtain ⟨rfl, rfl⟩ := List.cons.inj h
    simp

/-- The cursor passes the characters and comes to the other cursor. -/
structure Passes (c : Cursor) (w : List Char) (c' : Cursor) : Prop where
  rest_eq : c.rest = w ++ c'.rest
  eq_advance : c' = c.advance w.length

theorem advance_add (m n : Nat) (c : Cursor) : c.advance (m + n) = (c.advance m).advance n := by
  induction m generalizing c with
  | zero => rw [Nat.zero_add]; rfl
  | succ m ih => rw [Nat.succ_add]; exact ih c.next

theorem rest_advance (h : c.rest = w ++ r) : (c.advance w.length).rest = r := by
  induction w generalizing c with
  | nil => exact h
  | cons ch w ih => exact ih (rest_next h)

/-- A cursor passes what it has before it. -/
theorem passes_advance (h : c.rest = w ++ r) : c.Passes w (c.advance w.length) :=
  ⟨by rw [rest_advance h, h], rfl⟩

namespace Passes

theorem nil (c : Cursor) : c.Passes [] c := ⟨rfl, rfl⟩

theorem trans (h : c.Passes w c') (h' : c'.Passes w' c'') : c.Passes (w ++ w') c'' := by
  constructor
  · rw [h.rest_eq, h'.rest_eq, List.append_assoc]
  · rw [h'.eq_advance, h.eq_advance, List.length_append, advance_add]

theorem split (h : c.Passes (w ++ w') c'') : ∃ c', c.Passes w c' ∧ c'.Passes w' c'' := by
  have hfirst : c.Passes w (c.advance w.length) :=
    passes_advance (r := w' ++ c''.rest) (by rw [h.rest_eq, List.append_assoc])
  refine ⟨_, hfirst, ?_, ?_⟩
  · exact List.append_cancel_left
      (by rw [← hfirst.rest_eq, h.rest_eq, List.append_assoc] :
        w ++ (c.advance w.length).rest = w ++ (w' ++ c''.rest))
  · rw [h.eq_advance, List.length_append, advance_add]

theorem cons (h : c.rest = ch :: r) (htail : c.next.Passes w c') : c.Passes (ch :: w) c' := by
  constructor
  · rw [List.cons_append, ← htail.rest_eq, rest_next h, h]
  · exact htail.eq_advance

theorem uncons (h : c.Passes (ch :: w) c') : c.next.Passes w c' :=
  ⟨rest_next h.rest_eq, h.eq_advance⟩

theorem single (h : c.rest = ch :: r) : c.Passes [ch] c.next := cons h (nil _)

/-- The characters that a cursor passes say where it comes to. -/
theorem unique (h : c.Passes w c') (h' : c.Passes w c'') : c' = c'' :=
  h.eq_advance.trans h'.eq_advance.symm

theorem index_eq (h : c.Passes w c') : c'.index = c.index + w.length := by
  induction w generalizing c with
  | nil => rw [h.eq_advance]; rfl
  | cons ch w ih => rw [ih h.uncons, index_next h.rest_eq, List.length_cons]; omega

theorem size_eq (h : c.Passes w c') : c.size = c'.size + w.length := by
  rw [c.size_eq, c'.size_eq, h.rest_eq, List.length_append]
  omega

theorem line_le (h : c.Passes w c') : c.line ≤ c'.line := by
  induction w generalizing c with
  | nil => rw [h.eq_advance]; exact Nat.le_refl _
  | cons ch w ih => exact Nat.le_trans (line_le_next c) (ih h.uncons)

theorem line_lt (h : c.Passes w c') (hw : '\n' ∈ w) : c.line < c'.line := by
  induction w generalizing c with
  | nil => cases hw
  | cons ch w ih =>
    rcases List.mem_cons.mp hw with rfl | hw
    · have hline := (next_of_lineFeed h.rest_eq).1
      exact Nat.lt_of_lt_of_le (by omega) h.uncons.line_le
    · exact Nat.lt_of_le_of_lt (line_le_next c) (ih h.uncons hw)

/-- Characters on a line move the cursor by as many columns. -/
theorem of_isPrinted (h : c.Passes w c') (hw : ∀ ch ∈ w, isPrinted ch = true) :
    c'.line = c.line ∧ c'.column = c.column + w.length := by
  induction w generalizing c with
  | nil => rw [h.eq_advance]; exact ⟨rfl, rfl⟩
  | cons ch w ih =>
    obtain ⟨hline, hcolumn⟩ := next_of_isPrinted h.rest_eq (hw ch List.mem_cons_self)
    obtain ⟨hline', hcolumn'⟩ := ih h.uncons fun d hd => hw d (List.mem_cons_of_mem _ hd)
    rw [hline', hcolumn', hline, hcolumn, List.length_cons]
    exact ⟨rfl, by omega⟩

/-- Behind a line feed, the column is the number of characters since. -/
theorem column_of_lineFeed (h : c.Passes ('\n' :: w) c') (hw : ∀ ch ∈ w, isPrinted ch = true) :
    c'.column = w.length := by
  rw [(h.uncons.of_isPrinted hw).2, (next_of_lineFeed h.rest_eq).2, Nat.zero_add]

end Passes

/-! ### What lies ahead -/

theorem peek_of_rest (h : c.rest = ch :: r) : c.peek = ch := by
  rw [peek, h, List.headD_cons]

theorem peek_of_nil (h : c.rest = []) : c.peek = endOfText := by
  rw [peek, h, List.headD_nil]

theorem peek_eq (c : Cursor) : c.peek = c.rest.headD endOfText := rfl

/-- The longest run of characters with a property is what comes before the first one without it. -/
theorem span_eq {p : Char → Bool} (h : c.Passes w c') (hw : ∀ ch ∈ w, p ch = true)
    (hstop : ∀ ch ∈ c'.rest.head?, p ch = false) : c.span p = (w, c') := by
  have hrun : c.rest.takeWhile p = w := by
    rw [h.rest_eq, List.takeWhile_append_of_pos hw]
    cases hrest : c'.rest with
    | nil => simp
    | cons ch r => rw [List.takeWhile_cons_of_neg (by simp [hstop ch (by simp [hrest])]), List.append_nil]
  rw [span, hrun, ← h.eq_advance]

theorem skipWhile_eq {p : Char → Bool} (h : c.Passes w c') (hw : ∀ ch ∈ w, p ch = true)
    (hstop : ∀ ch ∈ c'.rest.head?, p ch = false) : c.skipWhile p = c' := by
  rw [skipWhile, span_eq h hw hstop]

theorem lineBreak?_lineFeed (h : c.rest = '\n' :: r) : c.lineBreak? = some ('\n', c.next) := by
  simp [lineBreak?, peek_of_rest h]

theorem lineBreak?_separator (h : c.rest = ch :: r) (hch : isSeparator ch = true) :
    c.lineBreak? = some (ch, c.next) := by
  have hne : ch ≠ '\r' ∧ ch ≠ '\n' ∧ ch ≠ '\x85' := by
    simp only [isSeparator, Bool.or_eq_true, beq_iff_eq] at hch
    rcases hch with rfl | rfl <;> decide
  simp [lineBreak?, peek_of_rest h, hne, hch]

theorem lineBreak?_eq_none (h : isBreak c.peek = false) : c.lineBreak? = none := by
  simp only [isBreak, Bool.or_eq_false_iff, beq_eq_false_iff_ne, ne_eq] at h
  simp [lineBreak?, h]

end BusinessModel.Yaml.Cursor
