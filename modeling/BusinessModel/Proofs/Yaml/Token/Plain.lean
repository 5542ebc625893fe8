import BusinessModel.Proofs.Yaml.Token.Quoted

/-!
The writings of a text without quotation marks, and that reading one of them gives the text. Between
two words of a writing there are spaces, which stand for themselves, or a fold, which stands for one
space.
-/

namespace BusinessModel.Yaml

/-- Characters of a plain scalar that are read in one run. -/
structure IsWord (ws : List Char) : Prop where
  ne_nil : ws ≠ []
  solid : ∀ ch ∈ ws, isSpaceOrTab ch = false ∧ isBreakOrEnd ch = false
  isPrinted : ∀ ch ∈ ws, Cursor.isPrinted ch = true
  isReadable : ∀ ch ∈ ws, isReadable ch = true
  head_ne : ws.head? ≠ some '#'
  last_ne : ws.getLast? ≠ some ':'

/-- A text and its writings without quotation marks, with lines that have at least so many spaces in
front of them. -/
inductive PlainForm (least : Nat) : List Char → List Char → Prop where
  | word {ws : List Char} (hws : IsWord ws) : PlainForm least ws ws
  | spaces {n : Nat} {ws t w : List Char} (hws : IsWord ws) (h : PlainForm least t w) :
      PlainForm least (ws ++ (List.replicate (n + 1) ' ' ++ t))
        (ws ++ (List.replicate (n + 1) ' ' ++ w))
  | fold {j k : Nat} {ws t w : List Char} (hws : IsWord ws) (hk : least ≤ k)
      (h : PlainForm least t w) :
      PlainForm least (ws ++ ' ' :: t)
        (ws ++ (List.replicate j ' ' ++ '\n' :: List.replicate k ' ' ++ w))

/-- What may follow a plain scalar: nothing, the colon behind a key, or a line that is indented less.
Reading goes on at the other cursor, and says whether a line has ended. -/
inductive Trails (least : Nat) (c : Cursor) : Bool → Cursor → Prop where
  | nothing (hrest : c.rest = []) : Trails least c false c
  | colon {r : List Char} (hrest : c.rest = ':' :: r) (hr : endsWord (r.headD endOfText) = true) :
      Trails least c false c
  | line {k : Nat} {c' : Cursor} (h : c.Passes ('\n' :: List.replicate k ' ') c') (hk : k < least)
      (hsolid : Solid c'.rest) (hsep : c.next.atSeparatorLine = false) : Trails least c true c'

open Cursor

section Reading

variable {least : Nat} {start : Mark} {c c' c'' : Cursor} {t w ws r : List Char}

theorem PlainForm.mono {few : Nat} (h : PlainForm least t w) (hle : few ≤ least) :
    PlainForm few t w := by
  induction h with
  | word hws => exact .word hws
  | spaces hws _ ih => exact .spaces hws ih
  | fold hws hk _ ih => exact .fold hws (Nat.le_trans hle hk) ih

/-- A text and its writing begin with the same word. -/
theorem PlainForm.exists_word (h : PlainForm least t w) :
    ∃ ws x y, IsWord ws ∧ t = ws ++ x ∧ w = ws ++ y ∧ (∀ ch ∈ x.head?, ch = ' ') ∧
      ∀ ch ∈ y.head?, ch = ' ' ∨ ch = '\n' := by
  cases h with
  | word hws => exact ⟨_, [], [], hws, by simp, by simp, by rintro ch ⟨⟩, by rintro ch ⟨⟩⟩
  | spaces hws _ =>
    exact ⟨_, _, _, hws, rfl, rfl, fun ch hch => (Option.some.inj hch).symm,
      fun ch hch => .inl (Option.some.inj hch).symm⟩
  | @fold j k ws t w hws _ _ =>
    refine ⟨_, _, _, hws, rfl, rfl, fun ch hch => (Option.some.inj hch).symm, fun ch hch => ?_⟩
    cases j with
    | zero => exact .inr (Option.some.inj hch).symm
    | succ j => exact .inl (Option.some.inj hch).symm

theorem endsWord_eq_false {ch : Char} (h : isSpaceOrTab ch = false ∧ isBreakOrEnd ch = false) :
    endsWord ch = false := by
  simp only [isSpaceOrTab, isBreakOrEnd, isBreak, endsWord, endsLine, Bool.or_eq_false_iff] at h ⊢
  obtain ⟨⟨hspace, htab⟩, hend, ⟨⟨hreturn, hfeed⟩, hnext⟩, _⟩ := h
  exact ⟨⟨hspace, htab⟩, ⟨⟨hfeed, hend⟩, hreturn⟩, hnext⟩

theorem IsWord.not_endsWord (h : IsWord ws) : ∀ ch ∈ ws, endsWord ch = false :=
  fun ch hch => endsWord_eq_false (h.solid ch hch)

theorem plainRun_eq (hws : ∀ ch ∈ ws, endsWord ch = false) (hlast : ws.getLast? ≠ some ':')
    (hr : endsPlain false false r = true) : plainRun false false (ws ++ r) = ws := by
  induction ws with
  | nil =>
    cases r with
    | nil => rfl
    | cons ch r => rw [List.nil_append, plainRun, if_pos hr]
  | cons ch ws ih =>
    have hch := hws ch List.mem_cons_self
    have hgo : endsPlain false false (ch :: (ws ++ r)) = false := by
      cases ws with
      | nil =>
        have hcolon : ch ≠ ':' := fun heq => hlast (by rw [heq]; rfl)
        simp [endsPlain, hch, hcolon]
      | cons d ws =>
        have hd := hws d (by simp)
        by_cases hcolon : ch = ':' <;> simp [endsPlain, hch, hd, hcolon]
    rw [List.cons_append, plainRun, hgo, if_neg (by decide), ih (fun d hd => hws d (by simp [hd])) ?_]
    intro heq
    apply hlast
    rw [List.getLast?_cons, heq]
    rfl

theorem endsPlain_space : endsPlain false false (' ' :: r) = true := by
  simp [endsPlain, endsWord]

theorem endsPlain_lineFeed : endsPlain false false ('\n' :: r) = true := by
  simp [endsPlain, endsWord, endsLine]

theorem Trails.head {broke : Bool} (h : Trails least c broke c') :
    ∀ ch ∈ c.rest.head?, ch = ':' ∨ ch = '\n' := by
  intro ch hch
  cases h with
  | nothing hrest => rw [hrest] at hch; cases hch
  | colon hrest _ => rw [hrest] at hch; exact .inl (Option.some.inj hch).symm
  | line h _ _ _ => rw [h.rest_eq] at hch; exact .inr (Option.some.inj hch).symm

theorem Trails.endsPlain {broke : Bool} (h : Trails least c broke c') :
    endsPlain false false c.rest = true := by
  cases h with
  | nothing hrest => rw [hrest]; rfl
  | colon hrest hr =>
    rw [hrest]
    simp only [Yaml.endsPlain, hr]
    decide
  | line h => rw [h.rest_eq]; exact endsPlain_lineFeed

theorem plainBlanks_eq :
    plainBlanks c = match (c.span (· == ' ')).2.lineBreak? with
      | none => (some (c.span (· == ' ')).1, false, (c.span (· == ' ')).2)
      | some (b, c) =>
        if c.atSeparatorLine then (none, true, c)
        else ((plainBreaks (c.size + 1) c).1.map (foldBreaks b), true, (plainBreaks (c.size + 1) c).2) :=
  rfl

theorem span_spaces {n : Nat} (h : c.Passes (List.replicate n ' ') c')
    (hstop : ∀ ch ∈ c'.rest.head?, ch ≠ ' ') : c.span (· == ' ') = (List.replicate n ' ', c') :=
  span_eq h (fun ch hch => by rw [List.eq_of_mem_replicate hch]; rfl)
    fun ch hch => by simpa using hstop ch hch

theorem Solid.head_ne (h : Solid r) : ∀ ch ∈ r.head?, ch ≠ ' ' := by
  rintro ch hch rfl
  exact absurd (h _ hch).1 (by decide)

/-- Spaces between two words are read as they are. -/
theorem plainBlanks_spaces {n : Nat} (h : c.Passes (List.replicate n ' ') c')
    (hsolid : Solid c'.rest) : plainBlanks c = (some (List.replicate n ' '), false, c') := by
  rw [plainBlanks_eq, span_spaces h hsolid.head_ne]
  dsimp only
  rw [lineBreak?_of_solid hsolid]

/-- The end of a line and the spaces around it are read as one space. -/
theorem plainBlanks_fold {j k : Nat} (h : c.Passes (List.replicate j ' ') c')
    (h' : c'.Passes ('\n' :: List.replicate k ' ') c'') (hsolid : Solid c''.rest)
    (hsep : c'.next.atSeparatorLine = false) : plainBlanks c = (some [' '], true, c'') := by
  have hspan : c.span (· == ' ') = (List.replicate j ' ', c') := by
    refine span_spaces h fun ch hch => ?_
    rw [h'.rest_eq] at hch
    obtain rfl : '\n' = ch := by simpa using hch
    decide
  have hbreaks : plainBreaks (c'.next.size + 1) c'.next = (some [], c'') := by
    have hskip : c'.next.skipSpaces = c'' := by
      rw [skipSpaces, skipWhile, span_spaces h'.uncons hsolid.head_ne]
    rw [plainBreaks]
    dsimp only
    rw [hskip, lineBreak?_of_solid hsolid]
  rw [plainBlanks_eq, hspan]
  dsimp only
  rw [lineBreak?_lineFeed h'.rest_eq]
  dsimp only
  rw [hsep, if_neg (by decide), hbreaks]
  rfl

/-- A part of a plain scalar, with the blanks behind it. -/
def PlainText.add (p : PlainText) (part : List Char) : PlainText :=
  let c := p.cursor.advance part.length
  ⟨part :: p.blanks :: p.parts, c.mark, (plainBlanks c).1.getD [], (plainBlanks c).2.1,
    (plainBlanks c).2.2⟩

theorem plainParts_succ (fuel : Nat) (p : PlainText) :
    plainParts false false least start (fuel + 1) p =
      if p.cursor.peek == '#' then .ok p
      else if (plainRun false false p.cursor.rest).isEmpty then .ok p
      else
        let p := p.add (plainRun false false p.cursor.rest)
        if p.blanks.isEmpty || p.cursor.peek == '#' || decide (p.cursor.column < least) then .ok p
        else plainParts false false least start fuel p := by
  rw [plainParts]
  dsimp only [PlainText.add]
  rcases plainBlanks (p.cursor.advance (plainRun false false p.cursor.rest).length)
    with ⟨blanks, broke, d⟩
  simp only [Bool.false_and, Bool.false_eq_true, if_false, Bool.not_false, Bool.true_and]
  split_ifs <;> rfl

theorem PlainForm.head (h : PlainForm least t w) :
    ∃ ch r, w = ch :: r ∧ ch ≠ '#' ∧ isSpaceOrTab ch = false ∧ isBreakOrEnd ch = false := by
  have hword {ws : List Char} (hws : IsWord ws) (v : List Char) : ∃ ch r, ws ++ v = ch :: r ∧
      ch ≠ '#' ∧ isSpaceOrTab ch = false ∧ isBreakOrEnd ch = false := by
    cases ws with
    | nil => exact absurd rfl hws.ne_nil
    | cons ch ws =>
      exact ⟨ch, ws ++ v, rfl, fun heq => hws.head_ne (by rw [heq]; rfl),
        hws.solid ch List.mem_cons_self⟩
  cases h with
  | word hws => simpa using hword hws []
  | spaces hws _ => exact hword hws _
  | fold hws _ _ => exact hword hws _

/-- A word of a plain scalar is read, with the blanks behind it. -/
theorem plainParts_word {fuel : Nat} {p : PlainText} {d : Cursor} (hws : IsWord ws)
    (h : p.cursor.Passes ws d) (hd : endsPlain false false d.rest = true) :
    plainParts false false least start (fuel + 1) p =
      if (p.add ws).blanks.isEmpty || (p.add ws).cursor.peek == '#' ||
          decide ((p.add ws).cursor.column < least) then .ok (p.add ws)
      else plainParts false false least start fuel (p.add ws) := by
  have hrun : plainRun false false p.cursor.rest = ws := by
    rw [h.rest_eq, plainRun_eq hws.not_endsWord hws.last_ne hd]
  have hpeek : ¬ (p.cursor.peek == '#') = true := by
    obtain ⟨ch, r, hw, hne, _⟩ := (PlainForm.word hws : PlainForm least ws ws).head
    rw [peek_of_rest (by rw [h.rest_eq, hw]; rfl)]
    simpa using hne
  rw [plainParts_succ, hrun, if_neg hpeek, if_neg (by simpa using hws.ne_nil)]

theorem PlainText.add_eq {p : PlainText} {d : Cursor} (h : p.cursor.Passes ws d) :
    p.add ws = ⟨ws :: p.blanks :: p.parts, d.mark, (plainBlanks d).1.getD [], (plainBlanks d).2.1,
      (plainBlanks d).2.2⟩ := by
  rw [PlainText.add, h.eq_advance]

theorem isPrinted_of_mem_spaces {n : Nat} : ∀ ch ∈ List.replicate n ' ', isPrinted ch = true := by
  intro ch hch
  rw [List.eq_of_mem_replicate hch]
  decide

theorem PlainForm.solid_append (h : PlainForm least t w) (r : List Char) : Solid (w ++ r) := by
  obtain ⟨ch, v, rfl, _, hsolid⟩ := h.head
  intro d hd
  obtain rfl : ch = d := by simpa using hd
  exact hsolid

/-- The blanks behind the last word end the scalar. -/
theorem Trails.plainBlanks_eq {broke : Bool} (h : Trails least c broke c') :
    ∃ bs, plainBlanks c = (some bs, broke, c') ∧ (bs = [] ∨ bs = [' '] ∧ c'.column < least) := by
  cases h with
  | nothing hrest =>
    have hsolid : Solid c.rest := by
      rw [hrest]
      rintro ch ⟨⟩
    exact ⟨[], plainBlanks_spaces (n := 0) (.nil c) hsolid, .inl rfl⟩
  | colon hrest hr =>
    have hsolid : Solid c.rest := by
      rw [hrest]
      intro ch hch
      obtain rfl : ':' = ch := by simpa using hch
      decide
    exact ⟨[], plainBlanks_spaces (n := 0) (.nil c) hsolid, .inl rfl⟩
  | @line k _ h hk hsolid hsep =>
    refine ⟨[' '], plainBlanks_fold (j := 0) (.nil c) h hsolid hsep, .inr ⟨rfl, ?_⟩⟩
    rw [h.column_of_lineFeed isPrinted_of_mem_spaces, List.length_replicate]
    exact hk

/-- Reading goes on behind a word if blanks and another word follow. -/
theorem plainParts_gap (start : Mark) (few fuel : Nat) {p : PlainText} {bs : List Char} {broke : Bool}
    (hws : IsWord ws) (hword : p.cursor.Passes ws c) (hend : endsPlain false false c.rest = true)
    (hblanks : plainBlanks c = (some bs, broke, c')) (hbs : bs ≠ []) (hform : PlainForm least t w)
    (hrest : c'.Passes w c'') (hcolumn : few ≤ c'.column) :
    plainParts false false few start (fuel + 1) p =
        plainParts false false few start fuel (p.add ws) ∧
      (p.add ws).cursor = c' ∧
      (p.add ws).parts.reverse.flatten ++ (p.add ws).blanks =
        p.parts.reverse.flatten ++ p.blanks ++ (ws ++ bs) := by
  have hadd := PlainText.add_eq hword
  rw [hblanks] at hadd
  have hpeek : (c'.peek == '#') = false := by
    obtain ⟨ch, r, rfl, hne, _⟩ := hform.head
    rw [peek_of_rest hrest.rest_eq]
    simpa using hne
  refine ⟨?_, ?_, ?_⟩
  · rw [plainParts_word hws hword hend, hadd, if_neg]
    simp [hbs, hpeek, Nat.not_lt.mpr hcolumn]
  · rw [hadd]
  · rw [hadd]
    simp

/-- Reading a writing of a text without quotation marks adds the text to the parts. -/
theorem plainParts_eq (start : Mark) (few : Nat) {fuel : Nat} {p : PlainText} {broke : Bool}
    (hform : PlainForm least t w) (hfew : few ≤ least) (hleast : 0 < least) (h : p.cursor.Passes w c)
    (hend : Trails few c broke c') (hcolumn : few ≤ p.cursor.column + 1) (hfuel : w.length < fuel) :
    ∃ q, plainParts false false few start fuel p = .ok q ∧
      q.parts.reverse.flatten = p.parts.reverse.flatten ++ p.blanks ++ t ∧ q.brokeLine = broke ∧
        q.cursor = c' ∧ q.blanks.head? ≠ some '\n' := by
  induction hform generalizing p fuel
  all_goals obtain ⟨fuel, rfl⟩ := Nat.exists_eq_succ_of_ne_zero (Nat.ne_zero_of_lt hfuel)
  case word ws hws =>
    obtain ⟨bs, hblanks, hlast⟩ := hend.plainBlanks_eq
    have hadd := PlainText.add_eq h
    rw [hblanks] at hadd
    have hstop : ((p.add ws).blanks.isEmpty || (p.add ws).cursor.peek == '#' ||
        decide ((p.add ws).cursor.column < few)) = true := by
      rw [hadd]
      rcases hlast with rfl | hlast
      · rfl
      · simp [hlast.2]
    refine ⟨p.add ws, ?_, ?_, ?_⟩
    · rw [plainParts_word hws h hend.endsPlain, if_pos hstop]
    · rw [hadd]
      simp
    · rw [hadd]
      refine ⟨rfl, rfl, ?_⟩
      rcases hlast with rfl | ⟨rfl, _⟩ <;> simp
  case spaces n ws t w hws hrest ih =>
    obtain ⟨d, hword, htail⟩ := h.split
    obtain ⟨e, hblanks, hrest'⟩ := htail.split
    have hsolid : Solid e.rest := hrest'.rest_eq ▸ hrest.solid_append _
    have hbefore : endsPlain false false d.rest = true := by
      rw [htail.rest_eq]
      exact endsPlain_space
    have hcolumn' : few ≤ e.column := by
      have := List.length_pos_of_ne_nil hws.ne_nil
      have := (hword.of_isPrinted hws.isPrinted).2
      have := (hblanks.of_isPrinted isPrinted_of_mem_spaces).2
      omega
    obtain ⟨hgo, hcursor, htext⟩ := plainParts_gap start few fuel hws hword hbefore
      (plainBlanks_spaces hblanks hsolid) (List.cons_ne_nil _ _) hrest hrest' hcolumn'
    have hless : w.length < fuel := by
      simp only [List.length_append, List.length_replicate] at hfuel
      omega
    obtain ⟨q, hq, htext', hbroke⟩ := ih (hcursor ▸ hrest')
      (Nat.le_succ_of_le (hcursor ▸ hcolumn')) hless
    refine ⟨q, hgo.trans hq, ?_, hbroke⟩
    rw [htext', htext]
    simp only [List.append_assoc]
  case fold j k ws t w hws hk hrest ih =>
    obtain ⟨d, hword, htail⟩ := h.split
    rw [List.append_assoc] at htail
    obtain ⟨d', hspaces, htail'⟩ := htail.split
    obtain ⟨e, hline, hrest'⟩ := htail'.split
    have hsolid : Solid e.rest := hrest'.rest_eq ▸ hrest.solid_append _
    have hbefore : endsPlain false false d.rest = true := by
      rw [htail.rest_eq]
      cases j with
      | zero => exact endsPlain_lineFeed
      | succ j => exact endsPlain_space
    have hsep : d'.next.atSeparatorLine = false := by
      obtain ⟨k, rfl⟩ := Nat.exists_eq_succ_of_ne_zero (by omega : k ≠ 0)
      exact atSeparatorLine_of_head hline.uncons.rest_eq (by decide) (by decide)
    have hcolumn' : few ≤ e.column := by
      rw [hline.column_of_lineFeed isPrinted_of_mem_spaces, List.length_replicate]
      exact Nat.le_trans hfew hk
    obtain ⟨hgo, hcursor, htext⟩ := plainParts_gap start few fuel hws hword hbefore
      (plainBlanks_fold hspaces hline hsolid hsep) (List.cons_ne_nil _ _) hrest hrest' hcolumn'
    have hless : w.length < fuel := by
      simp only [List.length_append, List.length_cons, List.length_replicate] at hfuel
      omega
    obtain ⟨q, hq, htext', hbroke⟩ := ih (hcursor ▸ hrest')
      (Nat.le_succ_of_le (hcursor ▸ hcolumn')) hless
    refine ⟨q, hgo.trans hq, ?_, hbroke⟩
    rw [htext', htext]
    simp

/-- Reading a writing of a text without quotation marks. -/
theorem plainScalar_eq {indent : Int} {broke : Bool} (hform : PlainForm least t w)
    (hindent : indent < least) (hleast : 0 < least) (h : c.Passes w c')
    (hend : Trails (indent + 1).toNat c' broke c'') (hcolumn : indent ≤ c.column) :
    ∃ token, plainScalar false false indent c = .ok (token, broke, c'') ∧
      token.kind = .scalar (String.ofList t) .plain ∧ token.IsBare := by
  have hfuel : w.length < c.size + 1 := by
    have := h.size_eq
    omega
  obtain ⟨q, hq, htext, rfl, rfl, hblanks⟩ := plainParts_eq c.mark (indent + 1).toNat (p := ⟨[], c.mark, [], false, c⟩) hform
    (by omega) hleast h hend (by dsimp only; omega) hfuel
  refine ⟨{ kind := .scalar (String.ofList q.parts.reverse.flatten) .plain, startMark := c.mark
            endMark := q.endMark, commentAfter := q.blanks.head? == some '\n' }, ?_, ?_, rfl, beq_eq_false_iff_ne.mpr hblanks⟩
  · exact bind_eq_ok_iff.mpr ⟨q, hq, rfl⟩
  · rw [htext]
    simp

end Reading

end BusinessModel.Yaml
