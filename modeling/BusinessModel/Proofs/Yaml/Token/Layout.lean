import BusinessModel.Proofs.Yaml.Token.Fetching

/-!
Reading a layout gives its tokens. Each part of a layout takes the state of reading from its start to
the place of the next token; the blocks that end there are closed by that token.
-/

namespace BusinessModel.Yaml

open Cursor

/-! ### What follows a part -/

/-- The next token, or the end of the text, behind a node of a collection at a column: at the end of
the text, or on the next line and not further to the right. -/
inductive Behind (n : Nat) (c : Cursor) : Cursor → Prop where
  | stop (hrest : c.rest = []) : Behind n c c
  | line {k : Nat} {d : Cursor} (h : c.Passes ('\n' :: List.replicate k ' ') d) (hk : k ≤ n)
      (hopens : Opens d.rest) (hsep : c.next.atSeparatorLine = false) : Behind n c d

namespace Behind

variable {m n : Nat} {c d : Cursor}

theorem mono (h : Behind n c d) (hn : n ≤ m) : Behind m c d := by
  cases h with
  | stop hrest => exact .stop hrest
  | line h hk hopens hsep => exact .line h (Nat.le_trans hk hn) hopens hsep

theorem column_le (h : Behind n c d) (hd : d.rest ≠ []) : d.column ≤ n := by
  cases h with
  | stop hrest => exact absurd hrest hd
  | line h hk _ _ =>
    rw [h.column_of_lineFeed isPrinted_of_mem_spaces, List.length_replicate]
    exact hk

theorem line_lt (h : Behind n c d) (hd : d.rest ≠ []) : c.line < d.line := by
  cases h with
  | stop hrest => exact absurd hrest hd
  | line h _ _ _ => exact h.line_lt List.mem_cons_self

theorem line_le (h : Behind n c d) : c.line ≤ d.line := by
  cases h with
  | stop _ => exact Nat.le_refl _
  | line h _ _ _ => exact h.line_le

theorem opens (h : Behind n c d) : Opens d.rest := by
  cases h with
  | stop hrest =>
    rw [hrest]
    rintro ch ⟨⟩
  | line _ _ hopens _ => exact hopens

theorem size_le (h : Behind n c d) : d.size ≤ c.size := by
  cases h with
  | stop _ => exact Nat.le_refl _
  | line h _ _ _ =>
    have := h.size_eq
    omega

/-- A scalar without quotation marks ends there. -/
theorem trails {least : Nat} (h : Behind n c d) (hn : n < least) :
    ∃ broke, Trails least c broke d ∧ (broke = false → d = c) := by
  cases h with
  | stop hrest => exact ⟨false, .nothing hrest, fun _ => rfl⟩
  | line h hk hopens hsep =>
    exact ⟨true, .line h (Nat.lt_of_le_of_lt hk hn) hopens.solid hsep, fun hfalse => by cases hfalse⟩

theorem endsWord (h : Behind n c d) : endsWord (c.rest.headD endOfText) = true := by
  cases h with
  | stop hrest => rw [hrest]; decide
  | line h _ _ _ => rw [h.rest_eq]; rfl

end Behind

/-! ### Where a part starts -/

theorem ScalarForm.length_pos {least : Nat} {t w : List Char} {style : Style}
    (h : ScalarForm least t style w) : 0 < w.length := by
  cases h with
  | plain hform _ =>
    obtain ⟨ch, r, rfl, _⟩ := hform.head
    exact Nat.succ_pos _
  | quoted _ => exact Nat.succ_pos _

theorem opens_of_quoted {double : Bool} {r : List Char} : Opens (closingMark double :: r) := by
  intro ch hch
  obtain rfl : closingMark double = ch := Option.some.inj hch
  cases double <;> decide

theorem opens_of_flow {sequence : Bool} {r : List Char} : Opens (flowMarks sequence ++ r) := by
  intro ch hch
  cases sequence <;> obtain rfl := Option.some.inj hch <;> decide

theorem ScalarForm.opens {least : Nat} {t v r : List Char} {style : Style}
    (h : ScalarForm least t style v) (hr : ∀ ch ∈ r.head?, ch = ':' ∨ ch = '\n') :
    Opens (v ++ r) ∧ ∀ c : Cursor, c.rest = v ++ r → c.atSeparatorLine = false := by
  cases h with
  | plain hform hstarts =>
    obtain ⟨ch, u, hrest, hplain, hprinted, hhash, hsep⟩ := Lexer.startsPlain_of_form hform hstarts hr
    refine ⟨fun d hd => ?_, hsep⟩
    rw [hrest] at hd
    obtain rfl : ch = d := Option.some.inj hd
    simp only [isPrinted, Bool.and_eq_true, bne_iff_ne] at hprinted
    exact ⟨hplain.solid.1, hplain.solid.2, hhash, hprinted.2⟩
  | @quoted double =>
    refine ⟨opens_of_quoted, fun c hc => atSeparatorLine_of_head hc ?_ ?_⟩ <;>
      cases double <;> decide

/-- A key starts a line. -/
theorem ScalarForm.opens_key {least : Nat} {t v r : List Char} {style : Style}
    (h : ScalarForm least t style v) :
    Opens (v ++ ':' :: r) ∧ ∀ c : Cursor, c.rest = v ++ ':' :: r → c.atSeparatorLine = false :=
  h.opens fun _ hch => .inl (Option.some.inj hch).symm

theorem LineForm.opens {sequence : Bool} {m : Nat} {ts : List TokenKind} {w r : List Char}
    (h : LineForm sequence m ts w) : Opens (w ++ r) := by
  cases h with
  | item h =>
    intro ch hch
    obtain rfl : '-' = ch := Option.some.inj hch
    decide
  | entry hkey _ _ _ =>
    rw [List.append_assoc]
    exact hkey.opens_key.1
  | explicit hkey h =>
    intro ch hch
    obtain rfl : '?' = ch := Option.some.inj hch
    decide

/-- A line at the left margin is no separator of documents. -/
theorem LineForm.not_atSeparatorLine {m : Nat} {ts : List TokenKind} {w r : List Char} {c : Cursor}
    (h : LineForm false m ts w) (hc : c.rest = w ++ r) : c.atSeparatorLine = false := by
  cases h with
  | entry hkey _ _ _ =>
    rw [List.append_assoc] at hc
    exact hkey.opens_key.2 c hc
  | explicit hkey h => exact atSeparatorLine_of_head hc (by decide) (by decide)

theorem LinesForm.exists_line {sequence : Bool} {m : Nat} {ts : List TokenKind} {w : List Char}
    (h : LinesForm sequence m ts w) : ∃ us v x, LineForm sequence m us v ∧ w = v ++ x := by
  cases h with
  | one h => exact ⟨_, _, [], h, (List.append_nil _).symm⟩
  | cons h _ => exact ⟨_, _, _, h, rfl⟩

theorem LinesForm.opens {sequence : Bool} {m : Nat} {ts : List TokenKind} {w r : List Char}
    (h : LinesForm sequence m ts w) : Opens (w ++ r) := by
  obtain ⟨us, v, x, hline, rfl⟩ := h.exists_line
  rw [List.append_assoc]
  exact hline.opens

theorem endsWord_spaces {n : Nat} {w r : List Char} (hn : 0 < n) :
    endsWord ((List.replicate n ' ' ++ w ++ r).headD endOfText) = true := by
  obtain ⟨n, rfl⟩ := Nat.exists_eq_succ_of_ne_zero (Nat.ne_of_gt hn)
  rfl

/-- An indicator before a node stands alone. -/
theorem NodeForm.endsWord {b : Nat} {here : Option Nat} {ts : List TokenKind} {w r : List Char}
    (h : NodeForm b here ts w) (hr : endsWord (r.headD endOfText) = true) :
    endsWord ((w ++ r).headD endOfText) = true := by
  cases h with
  | @empty _ n =>
    cases n with
    | zero => exact hr
    | succ n => rfl
  | scalar hgap _ =>
    cases hgap with
    | here n => exact endsWord_spaces (Nat.succ_pos n)
    | @below n k hk =>
      cases n with
      | zero => rfl
      | succ n => rfl
  | flow => exact endsWord_spaces (Nat.succ_pos _)
  | block hm hlead _ =>
    cases hlead with
    | here hm => exact endsWord_spaces (by omega)
    | below => rfl

/-! ### Writings without ends of lines -/

theorem IsEscape.return_notMem {c : Char} {e : List Char} (h : IsEscape c e) : '\r' ∉ e := by
  cases h with
  | @simple x hx =>
    intro hmem
    obtain rfl : '\r' = x := by simpa using hmem
    simp [simpleEscape?] at hx
  | @number x n ds hx _ hds _ =>
    intro hmem
    rcases List.mem_cons.mp hmem with hmem | hmem
    · cases hmem
    rcases List.mem_cons.mp hmem with rfl | hmem
    · simp [escapeDigits?] at hx
    · exact absurd (hds _ hmem) (by decide)

theorem isBreakOrEnd_of_isQuotedText {c : Char} (h : isQuotedText c = true) : isBreakOrEnd c = false := by
  simp only [isQuotedText, Bool.not_eq_true', Bool.or_eq_false_iff] at h
  exact h.2

theorem return_notMem_spaces (n : Nat) : '\r' ∉ List.replicate n ' ' := fun h =>
  absurd (List.eq_of_mem_replicate h) (by decide)

theorem QuotedForm.return_notMem {double : Bool} {t w : List Char} (h : QuotedForm double t w) :
    '\r' ∉ w := by
  induction h with
  | nil => exact List.not_mem_nil
  | char hc _ _ ih =>
    rintro (_ | ⟨_, hmem⟩)
    · cases isBreakOrEnd_of_isQuotedText hc
    · exact ih hmem
  | mark hc _ ih =>
    rintro (_ | ⟨_, hmem⟩)
    · cases double <;> simp at hc
    · exact ih hmem
  | apostrophe _ _ ih => simpa using ih
  | escape _ he _ ih =>
    rw [List.mem_append, not_or]
    exact ⟨he.return_notMem, ih⟩
  | spaces _ _ ih =>
    rw [List.mem_append, not_or]
    exact ⟨return_notMem_spaces _, ih⟩
  | lines hb hbs _ _ ih =>
    have hne (b : Char) (h : isLineEnd b = true) : b ≠ '\r' := by
      rintro rfl
      exact absurd h (by decide)
    simp only [List.mem_append, List.mem_cons, not_or]
    exact ⟨⟨⟨(hne _ hb).symm, fun hmem => hne _ (hbs _ hmem) rfl⟩, return_notMem_spaces _⟩, ih⟩
  | split _ _ _ ih =>
    simp only [List.cons_append, List.mem_append, List.mem_cons, not_or]
    exact ⟨by decide, by decide, return_notMem_spaces _, ih⟩

theorem PlainForm.return_notMem {least : Nat} {t w : List Char} (h : PlainForm least t w) : '\r' ∉ w := by
  have hword {ws : List Char} (hws : IsWord ws) : '\r' ∉ ws := fun hmem =>
    absurd (hws.isPrinted _ hmem) (by decide)
  induction h with
  | word hws => exact hword hws
  | spaces hws _ ih =>
    simp only [List.mem_append, not_or]
    exact ⟨hword hws, return_notMem_spaces _, ih⟩
  | fold hws _ _ ih =>
    simp only [List.mem_append, List.mem_cons, not_or]
    exact ⟨hword hws, ⟨return_notMem_spaces _, by decide, return_notMem_spaces _⟩, ih⟩

theorem ScalarForm.return_notMem {least : Nat} {t v : List Char} {style : Style}
    (h : ScalarForm least t style v) : '\r' ∉ v := by
  cases h with
  | plain hform _ => exact hform.return_notMem
  | @quoted double t w hform =>
    have := hform.return_notMem
    cases double <;> simp [closingMark, this]

/-- A writing without ends of lines is on one line. -/
theorem Cursor.Passes.same_line {c c' : Cursor} {w : List Char} (h : c.Passes w c') (hfeed : '\n' ∉ w)
    (hreturn : '\r' ∉ w) : c'.line = c.line ∧ c.column ≤ c'.column := by
  induction w generalizing c with
  | nil =>
    rw [h.eq_advance]
    exact ⟨rfl, Nat.le_refl _⟩
  | cons ch w ih =>
    rw [List.mem_cons, not_or] at hfeed hreturn
    obtain ⟨hline, hcolumn⟩ := ih h.uncons hfeed.2 hreturn.2
    have hnext : c.next.line = c.line ∧ c.column ≤ c.next.column := by
      unfold Cursor.next
      split
      · exact ⟨rfl, Nat.le_refl _⟩
      · next d rest hcons =>
        rw [h.rest_eq] at hcons
        obtain ⟨rfl, _⟩ := List.cons.inj hcons
        rw [if_neg (by simp [Ne.symm hfeed.1, Ne.symm hreturn.1])]
        split
        · exact ⟨rfl, Nat.le_refl _⟩
        · exact ⟨rfl, Nat.le_succ _⟩
    exact ⟨hline.trans hnext.1, Nat.le_trans hnext.2 hcolumn⟩

end BusinessModel.Yaml
