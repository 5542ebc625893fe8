import BusinessModel.Proofs.Outcome
import BusinessModel.Proofs.Yaml.Cursor
import BusinessModel.Yaml
import BusinessModel.Yaml.Written
import Mathlib.Data.List.Basic
import Mathlib.Tactic.Common
import Mathlib.Tactic.SplitIfs

/-!
The writings of a text between quotation marks, and that reading one of them gives the text. A text
has many writings: spaces may be folded, and between double quotes a line may be broken anywhere.
-/

namespace BusinessModel.Yaml

/-- No comments belong to the token. -/
structure Token.IsBare (t : Token) : Prop where
  before : t.commentBefore = false
  after : t.commentAfter = false

/-- A character that breaks a line between quotation marks as the writer uses them. -/
def isLineEnd (c : Char) : Bool := c == '\n' || isSeparator c

/-- The characters start with one that is neither blank nor the end of a line or of the text. -/
def Solid (cs : List Char) : Prop := ∀ c ∈ cs.head?, isSpaceOrTab c = false ∧ isBreakOrEnd c = false

/-- The writings of a single character that start with a backslash. -/
inductive IsEscape : Char → List Char → Prop where
  | simple {c x : Char} (hx : simpleEscape? x = some c) : IsEscape c ['\\', x]
  | number {c x : Char} {n : Nat} {ds : List Char} (hx : escapeDigits? x = some n)
      (hlength : ds.length = n) (hds : ∀ d ∈ ds, (Text.hexValue? d).isSome = true)
      (hvalue : ds.foldl (fun v d => 16 * v + (Text.hexValue? d).getD 0) 0 = c.toNat) :
      IsEscape c ('\\' :: x :: ds)

/-- A text and its writings between double quotes or apostrophes, the quotation marks not included. -/
inductive QuotedForm (double : Bool) : List Char → List Char → Prop where
  | nil : QuotedForm double [] []
  | char {c : Char} {t w : List Char} (hc : isQuotedText c = true) (hread : isReadable c = true)
      (h : QuotedForm double t w) : QuotedForm double (c :: t) (c :: w)
  | mark {c : Char} {t w : List Char}
      (hc : if double then c = '\'' else c = '"' ∨ c = '\\') (h : QuotedForm double t w) :
      QuotedForm double (c :: t) (c :: w)
  | apostrophe {t w : List Char} (hdouble : double = false) (h : QuotedForm double t w) :
      QuotedForm double ('\'' :: t) ('\'' :: '\'' :: w)
  | escape {c : Char} {e t w : List Char} (hdouble : double = true) (he : IsEscape c e)
      (h : QuotedForm double t w) : QuotedForm double (c :: t) (e ++ w)
  | spaces {n : Nat} {t w : List Char} (hw : Solid w) (h : QuotedForm double t w) :
      QuotedForm double (List.replicate (n + 1) ' ' ++ t) (List.replicate (n + 1) ' ' ++ w)
  | lines {b : Char} {bs : List Char} {n : Nat} {t w : List Char}
      (hb : isLineEnd b = true) (hbs : ∀ b ∈ bs, isLineEnd b = true) (hw : Solid w)
      (h : QuotedForm double t w) :
      QuotedForm double (foldBreaks b bs ++ t) (b :: bs ++ List.replicate (n + 1) ' ' ++ w)
  | split {n : Nat} {t w : List Char} (hdouble : double = true) (hw : Solid w)
      (h : QuotedForm double t w) :
      QuotedForm double t ('\\' :: '\n' :: List.replicate (n + 1) ' ' ++ w)

namespace Cursor

variable {c c' : Cursor} {w r : List Char} {n : Nat} {b : Char}

theorem peekAt_eq {cs r : List Char} (h : c.rest = cs ++ r) (n : Nat) (hn : n < cs.length) :
    c.peekAt n = cs[n] := by
  rw [peekAt, h, List.getD_eq_getElem?_getD, List.getElem?_append_left hn]
  simp [hn]

theorem lineBreak?_of_isLineEnd (h : c.rest = b :: r) (hb : isLineEnd b = true) :
    c.lineBreak? = some (b, c.next) := by
  rw [isLineEnd, Bool.or_eq_true, beq_iff_eq] at hb
  rcases hb with rfl | hb
  · exact lineBreak?_lineFeed h
  · exact lineBreak?_separator h hb

theorem lineBreak?_of_solid (h : Solid c.rest) : c.lineBreak? = none := by
  refine lineBreak?_eq_none ?_
  cases hrest : c.rest with
  | nil =>
    rw [peek_of_nil hrest]
    decide
  | cons ch r =>
    rw [peek_of_rest hrest]
    have := (h ch (by simp [hrest])).2
    rw [isBreakOrEnd, Bool.or_eq_false_iff] at this
    exact this.2

theorem atSeparatorLine_of_head (h : c.rest = b :: r) (hdash : b ≠ '-') (hpoint : b ≠ '.') :
    c.atSeparatorLine = false := by
  simp [atSeparatorLine, atTriple, h, hdash, hpoint]

end Cursor

open Cursor

section Reading

variable {double : Bool} {start : Mark} {c c' : Cursor} {t w r : List Char}

theorem not_isSpaceOrTab_of_isLineEnd {b : Char} (hb : isLineEnd b = true) : isSpaceOrTab b = false := by
  simp only [isLineEnd, isSeparator, Bool.or_eq_true, beq_iff_eq] at hb
  rcases hb with rfl | rfl | rfl <;> decide

theorem isLineEnd_ne {b : Char} (hb : isLineEnd b = true) : b ≠ '-' ∧ b ≠ '.' := by
  simp only [isLineEnd, isSeparator, Bool.or_eq_true, beq_iff_eq] at hb
  rcases hb with rfl | rfl | rfl <;> decide

theorem quotedBreaks_succ (fuel : Nat) :
    quotedBreaks start (fuel + 1) c =
      if c.atSeparatorLine then .error (.at (some (.quoted, start)) .unexpectedSeparator c.mark)
      else match (c.skipWhile isSpaceOrTab).lineBreak? with
        | some (b, c) => quotedBreaks start fuel c >>= fun r => .ok (b :: r.1, r.2)
        | none => .ok ([], c.skipWhile isSpaceOrTab) := by
  rw [quotedBreaks]
  cases c.atSeparatorLine with
  | true => rfl
  | false =>
    dsimp only
    cases (c.skipWhile isSpaceOrTab).lineBreak? with
    | none => rfl
    | some r => rfl

/-- The breaks of blank lines are read, and the spaces in front of the next line are passed. -/
theorem quotedBreaks_eq {fuel n : Nat} {bs : List Char}
    (h : c.Passes (bs ++ List.replicate (n + 1) ' ') c') (hbs : ∀ b ∈ bs, isLineEnd b = true)
    (hsolid : Solid c'.rest) (hfuel : bs.length < fuel) :
    quotedBreaks start fuel c = .ok (bs, c') := by
  induction bs generalizing c fuel with
  | nil =>
    obtain ⟨fuel, rfl⟩ := Nat.exists_eq_succ_of_ne_zero (Nat.ne_zero_of_lt hfuel)
    have hsep : ¬ c.atSeparatorLine = true :=
      Bool.eq_false_iff.mp (atSeparatorLine_of_head h.rest_eq (by decide) (by decide))
    have hskip : c.skipWhile isSpaceOrTab = c' :=
      skipWhile_eq h (fun ch hch => by rw [List.eq_of_mem_replicate hch]; rfl)
        fun ch hch => (hsolid ch hch).1
    rw [quotedBreaks_succ, if_neg hsep, hskip, lineBreak?_of_solid hsolid]
  | cons b bs ih =>
    obtain ⟨fuel, rfl⟩ := Nat.exists_eq_succ_of_ne_zero (Nat.ne_zero_of_lt hfuel)
    have hb := hbs b List.mem_cons_self
    have hsep : ¬ c.atSeparatorLine = true :=
      Bool.eq_false_iff.mp (atSeparatorLine_of_head h.rest_eq (isLineEnd_ne hb).1 (isLineEnd_ne hb).2)
    have hskip : c.skipWhile isSpaceOrTab = c :=
      skipWhile_eq (.nil c) (fun ch hch => by cases hch) fun ch hch => by
        rw [h.rest_eq] at hch
        obtain rfl : b = ch := by simpa using hch
        exact not_isSpaceOrTab_of_isLineEnd hb
    rw [quotedBreaks_succ, if_neg hsep, hskip, lineBreak?_of_isLineEnd h.rest_eq hb]
    have hrest := ih h.uncons (fun b hb => hbs b (List.mem_cons_of_mem _ hb))
      (Nat.lt_of_succ_lt_succ hfuel)
    exact bind_eq_ok_iff.mpr ⟨_, hrest, rfl⟩

theorem quotedBlanks_eq :
    quotedBlanks start c =
      if (c.span isSpaceOrTab).2.peek == endOfText then
        .error (.at (some (.quoted, start)) .unexpectedEnd (c.span isSpaceOrTab).2.mark)
      else match (c.span isSpaceOrTab).2.lineBreak? with
        | some (b, c) => quotedBreaks start c.size c >>= fun r => .ok (foldBreaks b r.1, r.2)
        | none => .ok (c.span isSpaceOrTab) := by
  rw [quotedBlanks]
  dsimp only
  cases (c.span isSpaceOrTab).2.peek == endOfText with
  | true => rfl
  | false =>
    cases (c.span isSpaceOrTab).2.lineBreak? with
    | none => rfl
    | some r => rfl

theorem peek_ne_endOfText_of_solid (hne : c.rest ≠ []) (h : Solid c.rest) :
    ¬ (c.peek == endOfText) = true := by
  cases hrest : c.rest with
  | nil => exact absurd hrest hne
  | cons ch r =>
    have hch := (h ch (by simp [hrest])).2
    rw [isBreakOrEnd, Bool.or_eq_false_iff] at hch
    rw [peek_of_rest hrest, hch.1]
    decide

/-- Spaces between two words are read as they are. -/
theorem quotedBlanks_spaces {n : Nat} (h : c.Passes (List.replicate n ' ') c') (hne : c'.rest ≠ [])
    (hsolid : Solid c'.rest) :
    quotedBlanks start c = .ok (List.replicate n ' ', c') := by
  have hspan : c.span isSpaceOrTab = (List.replicate n ' ', c') :=
    span_eq h (fun ch hch => by rw [List.eq_of_mem_replicate hch]; rfl)
      fun ch hch => (hsolid ch hch).1
  rw [quotedBlanks_eq, hspan, if_neg (peek_ne_endOfText_of_solid hne hsolid),
    lineBreak?_of_solid hsolid]

/-- The end of a line, blank lines and the spaces in front of the next line are folded. -/
theorem quotedBlanks_lines {b : Char} {bs : List Char} {n : Nat}
    (h : c.Passes (b :: bs ++ List.replicate (n + 1) ' ') c') (hb : isLineEnd b = true)
    (hbs : ∀ b ∈ bs, isLineEnd b = true) (hsolid : Solid c'.rest) :
    quotedBlanks start c = .ok (foldBreaks b bs, c') := by
  have hspan : c.span isSpaceOrTab = ([], c) :=
    span_eq (.nil c) (fun ch hch => by cases hch) fun ch hch => by
      rw [h.rest_eq] at hch
      obtain rfl : b = ch := by simpa using hch
      exact not_isSpaceOrTab_of_isLineEnd hb
  have hend : ¬ (c.peek == endOfText) = true := by
    rw [peek_of_rest h.rest_eq]
    simp only [isLineEnd, isSeparator, Bool.or_eq_true, beq_iff_eq] at hb
    rcases hb with rfl | rfl | rfl <;> decide
  have hsize : bs.length < c.next.size := by
    have htail : c.next.Passes (bs ++ List.replicate (n + 1) ' ') c' := h.uncons
    have := htail.size_eq
    rw [List.length_append, List.length_replicate] at this
    omega
  rw [quotedBlanks_eq, hspan, if_neg hend, lineBreak?_of_isLineEnd h.rest_eq hb]
  exact bind_eq_ok_iff.mpr ⟨_, quotedBreaks_eq h.uncons hbs hsolid hsize, rfl⟩

/-! ### Escapes -/

theorem hexNumber_eq {ds : List Char} (h : c.Passes ds c')
    (hds : ∀ d ∈ ds, (Text.hexValue? d).isSome = true) :
    hexNumber ds.length c =
      .ok (ds.foldl (fun v d => 16 * v + (Text.hexValue? d).getD 0) 0) := by
  have hcs : (List.range ds.length).map c.peekAt = ds := by
    refine List.ext_getElem (by simp) fun i hi hi' => ?_
    rw [List.getElem_map, List.getElem_range, peekAt_eq h.rest_eq i hi']
  have hall : ds.find? (fun ch => (Text.hexValue? ch).isNone) = none :=
    List.find?_eq_none.mpr fun d hd => by simp [Option.isNone_eq_false_iff.mpr (hds d hd)]
  rw [hexNumber, hcs, hall]

theorem simpleEscape?_of_escapeDigits? {x : Char} {n : Nat} (h : escapeDigits? x = some n) :
    simpleEscape? x = none := by
  unfold escapeDigits? at h
  split at h
  · rfl
  · rfl
  · rfl
  · cases h

theorem escapedChar_toNat (v : Char) : escapedChar v.toNat = .ok v := by
  have hlt : v.toNat < 0x110000 := by
    rcases v.valid with hlow | ⟨_, hhigh⟩
    · exact Nat.lt_trans hlow (by decide)
    · exact hhigh
  rw [escapedChar, if_pos hlt, Char.ofNat_toNat]

theorem escapeSequence_eq {v : Char} {e : List Char} (he : IsEscape v e) (h : c.Passes e c') :
    escapeSequence start c = .ok ([v], c') := by
  cases he with
  | simple hx =>
    have hc : c.next.next = c' := h.uncons.uncons.eq_advance.symm
    unfold escapeSequence
    dsimp only
    rw [peek_of_rest h.uncons.rest_eq, hx, hc]
    rfl
  | number hx hlength hds hvalue =>
    have htail := h.uncons.uncons
    unfold escapeSequence
    dsimp only
    rw [peek_of_rest h.uncons.rest_eq, simpleEscape?_of_escapeDigits? hx, hx]
    dsimp only
    rw [← hlength, hexNumber_eq htail hds, hvalue, ← htail.eq_advance]
    dsimp only
    rw [escapedChar_toNat]
    rfl

/-- A line that is broken behind a backslash goes on with the next. -/
theorem escapeSequence_split {n : Nat}
    (h : c.Passes ('\\' :: '\n' :: List.replicate (n + 1) ' ') c') (hsolid : Solid c'.rest) :
    escapeSequence start c = .ok ([], c') := by
  have htail : c.next.next.Passes ([] ++ List.replicate (n + 1) ' ') c' := h.uncons.uncons
  have hsize : ([] : List Char).length < c.next.next.size := by
    rw [htail.size_eq, List.length_append, List.length_replicate]
    exact Nat.lt_of_lt_of_le (Nat.succ_pos _) (Nat.le_add_left _ _)
  unfold escapeSequence
  dsimp only
  rw [peek_of_rest h.uncons.rest_eq, lineBreak?_lineFeed h.uncons.rest_eq]
  exact quotedBreaks_eq htail (fun b hb => by cases hb) hsolid hsize

/-! ### Texts -/

/-- Whether the mark at the cursor ends the scalar. -/
def closesQuoted (double : Bool) (c : Cursor) : Bool :=
  if double then c.peek == '"' else c.peek == '\'' && c.peekAt 1 != '\''

/-- What stands at the cursor if it is no character that stands for itself. -/
def quotedPart (double : Bool) (start : Mark) (c : Cursor) : Except Error (List Char × Cursor) :=
  let ch := c.peek
  if double then
    if ch == '\'' then .ok ([ch], c.next)
    else if ch == '\\' then escapeSequence start c
    else quotedBlanks start c
  else if ch == '\'' then .ok ([ch], c.advance 2)
  else if ch == '"' || ch == '\\' then .ok ([ch], c.next)
  else quotedBlanks start c

theorem quotedText_succ (fuel : Nat) :
    quotedText double start (fuel + 1) c =
      if closesQuoted double (c.span isQuotedText).2 then
        .ok ((c.span isQuotedText).1, (c.span isQuotedText).2.next)
      else quotedPart double start (c.span isQuotedText).2 >>= fun m =>
        quotedText double start fuel m.2 >>= fun r =>
          .ok ((c.span isQuotedText).1 ++ m.1 ++ r.1, r.2) := by
  rw [quotedText]
  dsimp only [closesQuoted, quotedPart]
  generalize (c.span isQuotedText).2 = d
  cases double with
  | true =>
    simp only [if_true]
    split_ifs <;> rfl
  | false =>
    simp only [Bool.false_eq_true, if_false]
    split_ifs <;> rfl

/-- The mark that a scalar ends with. -/
def closingMark (double : Bool) : Char := if double then '"' else '\''

/-- Characters that stand for themselves are read one by one as well as in one run. -/
theorem quotedText_char {fuel : Nat} {ch : Char} {cs r : List Char} (h : c.rest = ch :: r)
    (hch : isQuotedText ch = true) (hnext : quotedText double start (fuel + 1) c.next = .ok (cs, c')) :
    quotedText double start (fuel + 1) c = .ok (ch :: cs, c') := by
  have hspan : c.span isQuotedText = (ch :: (c.next.span isQuotedText).1, (c.next.span isQuotedText).2) := by
    rw [span, span, h, rest_next h, List.takeWhile_cons_of_pos hch]
    rfl
  rw [quotedText_succ] at hnext ⊢
  rw [hspan]
  dsimp only at hnext ⊢
  split at hnext
  · next hclose =>
    rw [if_pos hclose]
    cases hnext
    rfl
  · next hopen =>
    rw [if_neg hopen]
    obtain ⟨m, hm, hnext⟩ := bind_eq_ok_iff.mp hnext
    obtain ⟨s, hs, heq⟩ := bind_eq_ok_iff.mp hnext
    cases heq
    exact bind_eq_ok_iff.mpr ⟨m, hm, bind_eq_ok_iff.mpr ⟨s, hs, rfl⟩⟩

/-- A part that is no character that stands for itself is read, and then the rest. -/
theorem quotedText_part {fuel : Nat} {d : Cursor} {m cs : List Char}
    (hstop : ∀ ch ∈ c.rest.head?, isQuotedText ch = false) (hopen : closesQuoted double c = false)
    (hpart : quotedPart double start c = .ok (m, d))
    (hrest : quotedText double start fuel d = .ok (cs, c')) :
    quotedText double start (fuel + 1) c = .ok (m ++ cs, c') := by
  have hspan : c.span isQuotedText = ([], c) :=
    span_eq (.nil c) (fun ch hch => by cases hch) hstop
  rw [quotedText_succ, hspan]
  dsimp only
  rw [hopen, if_neg (by decide)]
  exact bind_eq_ok_iff.mpr ⟨_, hpart, bind_eq_ok_iff.mpr ⟨_, hrest, rfl⟩⟩

theorem Solid.append_mark (h : Solid w) (r : List Char) : Solid (w ++ closingMark double :: r) := by
  cases w with
  | nil =>
    intro ch hch
    obtain rfl : closingMark double = ch := by simpa using hch
    cases double <;> decide
  | cons d w => exact h

/-- Blanks are read, and then the rest. -/
theorem quotedText_blanks {fuel : Nat} {d : Cursor} {b : Char} {m cs r : List Char}
    (hb : c.rest = b :: r) (hgap : isSpaceOrTab b = true ∨ isLineEnd b = true)
    (hpart : quotedBlanks start c = .ok (m, d))
    (hrest : quotedText double start fuel d = .ok (cs, c')) :
    quotedText double start (fuel + 1) c = .ok (m ++ cs, c') := by
  have hb' : isQuotedText b = false ∧ b ≠ '\'' ∧ b ≠ '"' ∧ b ≠ '\\' := by
    simp only [isSpaceOrTab, isLineEnd, isSeparator, Bool.or_eq_true, beq_iff_eq] at hgap
    rcases hgap with (rfl | rfl) | rfl | rfl | rfl <;> decide
  have hpeek := peek_of_rest hb
  refine quotedText_part (fun ch hch => ?_) ?_ ?_ hrest
  · rw [hb] at hch
    obtain rfl : b = ch := by simpa using hch
    exact hb'.1
  · cases double <;> simp [closesQuoted, hpeek, hb']
  · rw [← hpart]
    cases double <;> simp [quotedPart, hpeek, hb']

/-- An escape is read, and then the rest. -/
theorem quotedText_escape {fuel : Nat} {d : Cursor} {m cs r : List Char}
    (hpart : escapeSequence start c = .ok (m, d)) (hc : c.rest = '\\' :: r)
    (hrest : quotedText true start fuel d = .ok (cs, c')) :
    quotedText true start (fuel + 1) c = .ok (m ++ cs, c') := by
  have hpeek := peek_of_rest hc
  refine quotedText_part (fun ch hch => ?_) ?_ ?_ hrest
  · rw [hc] at hch
    obtain rfl : '\\' = ch := by simpa using hch
    decide
  · simp [closesQuoted, hpeek]
  · rw [← hpart]
    simp [quotedPart, hpeek]

/-- Reading a writing of a text between quotation marks gives the text. -/
theorem quotedText_eq {fuel : Nat} (hform : QuotedForm double t w)
    (h : c.Passes (w ++ [closingMark double]) c') (hfuel : w.length < fuel)
    (hend : double = false → c'.peek ≠ '\'') :
    quotedText double start fuel c = .ok (t, c') := by
  induction hform generalizing c fuel
  all_goals obtain ⟨fuel, rfl⟩ := Nat.exists_eq_succ_of_ne_zero (Nat.ne_zero_of_lt hfuel)
  case nil =>
    have hspan : c.span isQuotedText = ([], c) :=
      span_eq (.nil c) (fun ch hch => by cases hch) fun ch hch => by
        rw [h.rest_eq] at hch
        obtain rfl : closingMark double = ch := by simpa using hch
        cases double <;> decide
    have hclose : closesQuoted double c = true := by
      have hpeek := peek_of_rest h.rest_eq
      cases double with
      | true => simp [closesQuoted, hpeek, closingMark]
      | false =>
        have hnext : c.peekAt 1 = c'.peek := by
          rw [Cursor.peekAt, h.rest_eq, Cursor.peek]
          cases c'.rest <;> rfl
        have := hend rfl
        simp [closesQuoted, hpeek, closingMark, hnext, this]
    rw [quotedText_succ, hspan]
    dsimp only
    rw [hclose, if_pos rfl, h.eq_advance]
    rfl
  case char hc _ _ ih => exact quotedText_char h.rest_eq hc (ih h.uncons (Nat.lt_of_succ_lt hfuel))
  case mark ch t w hc _ ih =>
    have hpeek : c.peek = ch := peek_of_rest h.rest_eq
    refine quotedText_part (m := [ch]) (fun d hd => ?_) ?_ ?_
      (ih h.uncons (Nat.lt_of_succ_lt_succ hfuel))
    · rw [h.rest_eq] at hd
      obtain rfl : ch = d := by simpa using hd
      cases double with
      | true => rw [if_pos rfl] at hc; rw [hc]; decide
      | false => rcases hc with rfl | rfl <;> decide
    · cases double with
      | true => rw [if_pos rfl] at hc; simp [closesQuoted, hpeek, hc]
      | false => rcases hc with rfl | rfl <;> simp [closesQuoted, hpeek]
    · cases double with
      | true => rw [if_pos rfl] at hc; simp [quotedPart, hpeek, hc]
      | false => rcases hc with rfl | rfl <;> simp [quotedPart, hpeek]
  case apostrophe t w hdouble _ ih =>
    subst hdouble
    have hmarks : c.rest = ['\'', '\''] ++ (w ++ [closingMark false] ++ c'.rest) := h.rest_eq
    have hpeek : c.peek = '\'' := peek_of_rest h.rest_eq
    have hnext : c.peekAt 1 = '\'' := peekAt_eq hmarks 1 (by decide)
    refine quotedText_part (m := ['\'']) (fun d hd => ?_) ?_ ?_
      (ih h.uncons.uncons (Nat.lt_of_succ_lt (Nat.lt_of_succ_lt_succ hfuel)))
    · rw [h.rest_eq] at hd
      obtain rfl : '\'' = d := by simpa using hd
      decide
    · simp [closesQuoted, hpeek, hnext]
    · simp [quotedPart, hpeek]
      rfl
  case escape ch e t w hdouble he _ ih =>
    subst hdouble
    rw [List.append_assoc] at h
    obtain ⟨d, hescape, hrest⟩ := h.split
    obtain ⟨x, e, rfl⟩ : ∃ x e', e = '\\' :: x :: e' := by cases he <;> exact ⟨_, _, rfl⟩
    exact quotedText_escape (escapeSequence_eq he hescape) hescape.rest_eq
      (ih hrest (by simp at hfuel; omega))
  case split n t w hdouble hw _ ih =>
    subst hdouble
    rw [List.append_assoc] at h
    obtain ⟨d, hsplit, hrest⟩ := h.split
    have hsolid : Solid d.rest := by
      rw [hrest.rest_eq, List.append_assoc]
      exact hw.append_mark _
    exact quotedText_escape (escapeSequence_split hsplit hsolid) hsplit.rest_eq
      (ih hrest (by simp at hfuel; omega))
  case spaces n t w hw _ ih =>
    rw [List.append_assoc] at h
    obtain ⟨d, hblanks, hrest⟩ := h.split
    have hsolid : Solid d.rest := by
      rw [hrest.rest_eq, List.append_assoc]
      exact hw.append_mark _
    have hne : d.rest ≠ [] := by
      rw [hrest.rest_eq]
      simp
    exact quotedText_blanks hblanks.rest_eq (.inl rfl) (quotedBlanks_spaces hblanks hne hsolid)
      (ih hrest (by simp at hfuel; omega))
  case lines b bs n t w hb hbs hw _ ih =>
    rw [List.append_assoc] at h
    obtain ⟨d, hlines, hrest⟩ := h.split
    have hsolid : Solid d.rest := by
      rw [hrest.rest_eq, List.append_assoc]
      exact hw.append_mark _
    exact quotedText_blanks hlines.rest_eq (.inr hb) (quotedBlanks_lines hlines hb hbs hsolid)
      (ih hrest (by simp at hfuel; omega))

/-- Reading a writing of a text with its quotation marks. -/
theorem quotedScalar_eq (hform : QuotedForm double t w)
    (h : c.Passes (closingMark double :: (w ++ [closingMark double])) c')
    (hend : double = false → c'.peek ≠ '\'') :
    ∃ token, quotedScalar double c = .ok (token, c') ∧
      token.kind = .scalar (String.ofList t) (if double then .doubleQuoted else .singleQuoted) ∧
        token.IsBare := by
  have hsize : w.length < c.size + 1 := by
    have := h.size_eq
    simp at this
    omega
  have htext : quotedText double c.mark (c.size + 1) c.next = .ok (t, c') :=
    quotedText_eq hform h.uncons hsize hend
  refine ⟨{ kind := .scalar (String.ofList t) (if double then .doubleQuoted else .singleQuoted)
            startMark := c.mark, endMark := c'.mark }, ?_, rfl, rfl, rfl⟩
  exact bind_eq_ok_iff.mpr ⟨_, htext, rfl⟩

end Reading

end BusinessModel.Yaml
