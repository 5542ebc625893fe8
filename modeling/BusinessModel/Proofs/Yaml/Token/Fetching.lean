import BusinessModel.Proofs.Yaml.Layout
import BusinessModel.Proofs.Yaml.Token.Reading
import Mathlib.Data.List.Basic

/-!
The steps of reading outside of flow collections: where the next token is looked for, and what state
each kind of token leads to.
-/

namespace BusinessModel.Yaml

/-- A token or the end of the text is at the front. -/
def Opens (r : List Char) : Prop :=
  ∀ ch ∈ r.head?, isSpaceOrTab ch = false ∧ isBreakOrEnd ch = false ∧ ch ≠ '#' ∧ ch ≠ byteOrderMark

theorem Opens.solid {r : List Char} (h : Opens r) : Solid r :=
  fun ch hch => ⟨(h ch hch).1, (h ch hch).2.1⟩

namespace Lexer

open Cursor

/-- A state outside of flow collections, in a text without directives, in which no token has been
taken. The columns of the open blocks are listed, innermost first. -/
def block (c : Cursor) (allowKey : Bool) (keys : List (Nat × SimpleKey)) (levels : List Int)
    (queue : List Token) : Lexer :=
  { cursor := c, indent := levels.headD (-1), indents := levels.tail, allowKey, keys, queue }

theorem start_eq (cs : List Char) :
    Lexer.start cs = block (Cursor.start cs) true [] [-1] [Token.atMark .streamStart ⟨0, 0⟩] := rfl

variable {c d : Cursor} {allow : Bool} {keys : List (Nat × SimpleKey)} {levels : List Int}
  {q : List Token} {j n : Nat}

/-! ### Blanks -/

theorem peek_ne_of_opens {ch : Char} (h : Opens c.rest) (hne : ch ≠ endOfText)
    (hch : isSpaceOrTab ch = true ∨ isBreakOrEnd ch = true ∨ ch = '#' ∨ ch = byteOrderMark) :
    (c.peek == ch) = false := by
  rw [beq_eq_false_iff_ne]
  cases hrest : c.rest with
  | nil =>
    rw [peek_of_nil hrest]
    exact hne.symm
  | cons d r =>
    rw [peek_of_rest hrest]
    rintro rfl
    obtain ⟨hblank, hbreak, hhash, hmark⟩ := h d (by simp [hrest])
    simp_all

theorem blanks_here {inFlow : Bool} {fuel : Nat} (h : c.Passes (List.replicate n ' ') d)
    (hopens : Opens d.rest) : blanks inFlow (fuel + 1) allow c = (none, allow, d) := by
  have hskip : c.skipSpaces = d := by
    rw [skipSpaces, skipWhile, span_spaces h hopens.solid.head_ne]
  have hhash : ¬ (d.peek == '#') = true :=
    Bool.eq_false_iff.mp (peek_ne_of_opens hopens (by decide) (by decide))
  rw [blanks]
  dsimp only
  rw [hskip, if_neg hhash, lineBreak?_of_solid hopens.solid]

theorem blanks_line {fuel : Nat} (h : c.Passes (List.replicate j ' ' ++ '\n' :: List.replicate n ' ') d)
    (hopens : Opens d.rest) : blanks false (fuel + 2) allow c = (none, true, d) := by
  obtain ⟨e, hspaces, hline⟩ := h.split
  have hskip : c.skipSpaces = e := by
    rw [skipSpaces, skipWhile, span_spaces hspaces]
    intro ch hch
    rw [hline.rest_eq] at hch
    obtain rfl : '\n' = ch := by simpa using hch
    decide
  have hfeed : ¬ (e.next.peek == '\n') = true := by
    cases n with
    | zero =>
      have hnext : d = e.next := hline.eq_advance
      exact hnext ▸ Bool.eq_false_iff.mp (peek_ne_of_opens hopens (by decide) (by decide))
    | succ n =>
      rw [peek_of_rest hline.uncons.rest_eq]
      decide
  rw [blanks]
  dsimp only
  rw [hskip, peek_of_rest hline.rest_eq, if_neg (by decide), lineBreak?_lineFeed hline.rest_eq]
  dsimp only
  rw [if_neg hfeed, Bool.not_false, Bool.or_true]
  exact blanks_here hline.uncons hopens

theorem blanksAhead_of_blanks {result : Option Mark × Bool × Cursor} (hmark : (c.peek == byteOrderMark) = false)
    (h : blanks false (c.size + 1) allow c = result) :
    (block c allow keys levels q).blanksAhead = result := by
  unfold blanksAhead block
  dsimp only
  rw [hmark, Bool.and_false, if_neg (by decide)]
  exact h

/-- The next token is on the line of the cursor. -/
theorem blanksAhead_here (h : c.Passes (List.replicate n ' ') d) (hopens : Opens d.rest) :
    (block c allow keys levels q).blanksAhead = (none, allow, d) := by
  refine blanksAhead_of_blanks ?_ (blanks_here h hopens)
  cases n with
  | zero =>
    have heq : d = c := h.eq_advance
    exact heq ▸ peek_ne_of_opens hopens (by decide) (by decide)
  | succ n =>
    rw [peek_of_rest h.rest_eq]
    decide

/-- The next token is on the next line. -/
theorem blanksAhead_line (h : c.Passes (List.replicate j ' ' ++ '\n' :: List.replicate n ' ') d)
    (hopens : Opens d.rest) : (block c allow keys levels q).blanksAhead = (none, true, d) := by
  have hsize : 0 < c.size := by
    rw [h.size_eq, List.length_append, List.length_cons]
    omega
  obtain ⟨k, hk⟩ := Nat.exists_eq_succ_of_ne_zero (Nat.ne_of_gt hsize)
  refine blanksAhead_of_blanks ?_ (hk ▸ blanks_line h hopens)
  cases j with
  | zero =>
    rw [peek_of_rest h.rest_eq]
    decide
  | succ j =>
    rw [peek_of_rest h.rest_eq]
    decide

/-! ### Steps -/

theorem unwindTo_block {opened : List Int} {b : Int} {column : Int} (hopened : ∀ i ∈ opened, column < i)
    (hb : b ≤ column) :
    unwindTo column (opened ++ b :: levels).tail (block c allow keys (opened ++ b :: levels) q) =
      block c allow keys (b :: levels)
        (q ++ List.replicate opened.length (Token.atMark .blockEnd c.mark)) := by
  induction opened generalizing q with
  | nil =>
    have hstay : ¬ b > column := by omega
    cases levels with
    | nil =>
      rw [List.length_nil, List.replicate_zero, List.append_nil]
      rfl
    | cons i levels =>
      show (if b > column then _ else _) = _
      rw [if_neg hstay, List.length_nil, List.replicate_zero, List.append_nil]
      rfl
  | cons i opened ih =>
    have hi : i > column := hopened i List.mem_cons_self
    have hlevels : (i :: opened ++ b :: levels).tail = opened ++ b :: levels := rfl
    have hcons : ∃ i' more, opened ++ b :: levels = i' :: more := by
      cases opened <;> exact ⟨_, _, rfl⟩
    have ih := ih (q := q ++ [Token.atMark .blockEnd c.mark])
      fun k hk => hopened k (List.mem_cons_of_mem _ hk)
    rw [hlevels]
    obtain ⟨i', more, heq⟩ := hcons
    rw [heq] at ih ⊢
    show (if i > column then _ else _) = _
    rw [if_pos hi, List.length_cons, List.replicate_succ]
    refine Eq.trans ?_ (ih.trans ?_)
    · rfl
    · simp

/-- What the next step of reading does once blanks are passed, stale keys dropped and blocks closed. -/
theorem fetch_block {opened : List Int} {b : Int} {allow' : Bool} {kept : List (Nat × SimpleKey)}
    (hblanks : (block c allow keys (opened ++ b :: levels) q).blanksAhead = (none, allow', d))
    (hfree : ∀ e ∈ keys, isStale d e.2 = true → e.2.required = false)
    (hkept : keys.filter (fun e => !isStale d e.2) = kept)
    (hopened : ∀ i ∈ opened, (d.column : Int) < i) (hb : b ≤ d.column) :
    (block c allow keys (opened ++ b :: levels) q).fetch =
      (block d allow' kept (b :: levels)
        (q ++ List.replicate opened.length (Token.atMark .blockEnd d.mark))).dispatch := by
  have hpast : (block c allow keys (opened ++ b :: levels) q).pastBlanks =
      block d allow' keys (opened ++ b :: levels) q := by
    unfold pastBlanks
    rw [hblanks]
    rfl
  have hdrop : (block d allow' keys (opened ++ b :: levels) q).dropStaleKeys =
      .ok (block d allow' kept (opened ++ b :: levels) q) := by
    refine dropStaleKeys_eq_ok_iff.mpr ⟨hfree, ?_⟩
    show _ = block d allow' (keys.filter fun e => !isStale d e.2) _ q
    rw [hkept]
  rw [fetch_eq, hblanks, hpast]
  refine (congrArg (· >>= _) hdrop).trans ?_
  exact congrArg dispatch (unwindTo_block hopened hb)

/-- A step of reading: blocks that are indented more are closed, and a token is read. -/
theorem step_block {opened : List Int} {b : Int} {allow' : Bool} {kept : List (Nat × SimpleKey)}
    {l : Lexer}
    (hblanks : (block c allow keys (opened ++ b :: levels) q).blanksAhead = (none, allow', d))
    (hpast : ∀ e ∈ keys, e.2.place.line ≤ c.line)
    (hfree : ∀ e ∈ keys, isStale d e.2 = true → e.2.required = false)
    (hkept : keys.filter (fun e => !isStale d e.2) = kept)
    (hopened : ∀ i ∈ opened, (d.column : Int) < i) (hb : b ≤ d.column)
    (hdispatch : (block d allow' kept (b :: levels)
      (q ++ List.replicate opened.length (Token.atMark .blockEnd d.mark))).dispatch = .ok l)
    (hsize : l.cursor.size + (!l.done).toNat ≤ c.size)
    (hsublist : (q ++ List.replicate opened.length (Token.atMark .blockEnd d.mark)).Sublist l.queue)
    (hlength : q.length + opened.length < l.queue.length)
    (hgrow : l.queue.length + l.indents.length ≤ q.length + opened.length + levels.length + 4) :
    Step (block c allow keys (opened ++ b :: levels) q) l := by
  refine ⟨rfl, (fetch_block hblanks hfree hkept hopened hb).trans hdispatch, by rw [hblanks], hpast,
    fun hdone => ?_, ?_, (List.sublist_append_left _ _).trans hsublist, ?_⟩
  · rw [hdone] at hsize
    exact hsize
  · have htail : (opened ++ b :: levels).tail.length = opened.length + levels.length := by
      rw [List.length_tail, List.length_append, List.length_cons]
      omega
    have hunfinished : (!(block c allow keys (opened ++ b :: levels) q).done).toNat = 1 := rfl
    simp only [potential, hunfinished]
    simp only [block, htail]
    omega
  · show q.length < l.queue.length
    omega

/-! ### Indicators -/

variable {b : Int} {m : Nat} {r : List Char} {levels' : List Int} {opening : List TokenKind}
  {start : TokenKind}

/-- A line of a collection at a column follows another one, or starts a deeper block. Columns of open
blocks before and after are given, and the token that starts a block. -/
inductive Enters (start : TokenKind) (m : Nat) : List Int → List Int → List TokenKind → Prop where
  | deeper {b : Int} {levels : List Int} (hb : b < m) :
      Enters start m (b :: levels) (m :: b :: levels) [start]
  | level {levels : List Int} : Enters start m (m :: levels) (m :: levels) []

/-- Tokens without extent. -/
def marks (kinds : List TokenKind) (m : Mark) : List Token := kinds.map (Token.atMark · m)

@[simp] theorem map_kind_marks (kinds : List TokenKind) (m : Mark) : (marks kinds m).map (·.kind) = kinds := by
  rw [marks, List.map_map]
  exact List.map_id' _

@[simp] theorem length_marks (kinds : List TokenKind) (m : Mark) : (marks kinds m).length = kinds.length :=
  List.length_map ..

theorem isBare_atMark (kind : TokenKind) (m : Mark) : (Token.atMark kind m).IsBare := ⟨rfl, rfl⟩

theorem isBare_marks {kinds : List TokenKind} {m : Mark} : ∀ t ∈ marks kinds m, t.IsBare := by
  intro t ht
  obtain ⟨kind, _, rfl⟩ := List.mem_map.mp ht
  exact isBare_atMark kind m

theorem enter_block (henters : Enters start d.column levels levels' opening) (problem : Problem) :
    (block d true [] levels q).enter start problem =
      .ok (block d true [] levels' (q ++ marks opening d.mark)) := by
  cases henters with
  | @deeper b levels hb =>
    show (if b < d.column then _ else _) = _
    rw [if_pos hb]
    rfl
  | @level levels =>
    show (if (d.column : Int) < d.column then _ else _) = _
    rw [if_neg (by omega), marks, List.map_nil, List.append_nil]

/-- A token of one character. -/
def indicator (kind : TokenKind) (c : Cursor) : Token :=
  { kind, startMark := c.mark, endMark := c.next.mark }

theorem isBare_indicator (kind : TokenKind) (c : Cursor) : (indicator kind c).IsBare := ⟨rfl, rfl⟩

theorem pushChars_block (kind : TokenKind) :
    (block d allow keys levels q).pushChars kind 1 =
      block d.next allow keys levels (q ++ [indicator kind d]) := rfl

theorem fetchBlockEntry_block (henters : Enters .blockSequenceStart d.column levels levels' opening) :
    (block d true [] levels q).fetchBlockEntry =
      .ok (block d.next true [] levels' (q ++ marks opening d.mark ++ [indicator .blockEntry d])) := by
  rw [fetchBlockEntry_eq, enter_block henters]
  rfl

theorem fetchKey_block (henters : Enters .blockMappingStart d.column levels levels' opening) :
    (block d true [] levels q).fetchKey =
      .ok (block d.next true [] levels' (q ++ marks opening d.mark ++ [indicator .key d])) := by
  rw [fetchKey_eq, enter_block henters]
  rfl

theorem fetchValue_block (henters : Enters .blockMappingStart d.column levels levels' opening) :
    (block d true [] levels q).fetchValue =
      .ok (block d.next true [] levels' (q ++ marks opening d.mark ++ [indicator .value d])) := by
  rw [fetchValue_eq]
  show (block d true [] levels q).enter _ _ >>= _ = _
  rw [enter_block henters]
  rfl

theorem peekAt_one {ch : Char} (h : c.rest = ch :: r) : c.peekAt 1 = r.headD endOfText := by
  rw [peekAt, h]
  cases r <;> rfl

theorem dispatch_dash (h : d.rest = '-' :: r) (hr : endsWord (r.headD endOfText) = true)
    (hcolumn : 0 < d.column) :
    (block d allow [] levels q).dispatch = (block d allow [] levels q).fetchBlockEntry := by
  have hne : (d.column == 0) = false := beq_eq_false_iff_ne.mpr (by omega)
  have hnext : endsWord (d.peekAt 1) = true := by rw [peekAt_one h, hr]
  simp [dispatch, block, peek_of_rest h, h, hne, hnext]

theorem dispatch_question (h : d.rest = '?' :: r) (hr : endsWord (r.headD endOfText) = true) :
    (block d allow [] levels q).dispatch = (block d allow [] levels q).fetchKey := by
  have hnext : endsWord (d.peekAt 1) = true := by rw [peekAt_one h, hr]
  simp [dispatch, block, peek_of_rest h, h, hnext]

theorem dispatch_colon (h : d.rest = ':' :: r) (hr : endsWord (r.headD endOfText) = true) :
    (block d allow keys levels q).dispatch = (block d allow keys levels q).fetchValue := by
  have hnext : endsWord (d.peekAt 1) = true := by rw [peekAt_one h, hr]
  simp [dispatch, block, peek_of_rest h, h, hnext, startsValue]

/-- The key that is remembered for the next token. -/
def keyHere (c : Cursor) (levels : List Int) (q : List Token) : SimpleKey :=
  ⟨q.length, levels.headD (-1) == c.column, c.index, c.mark⟩

/-- The keys that are remembered once a key has been allowed to start. -/
def keysHere (allow : Bool) (c : Cursor) (levels : List Int) (q : List Token) : List (Nat × SimpleKey) :=
  if allow then [(0, keyHere c levels q)] else []

theorem saveKey_block :
    (block c allow [] levels q).saveKey = .ok (block c allow (keysHere allow c levels q) levels q) := by
  rw [saveKey_eq]
  cases allow with
  | false => rfl
  | true =>
    have hnext : (block c true [] levels q).nextKey = keyHere c levels q := by
      simp [nextKey, keyHere, block, inFlow]
    show Except.ok (block c true [(0, (block c true [] levels q).nextKey)] levels q) = _
    rw [hnext]
    rfl

/-- A colon makes the token before it a key. -/
theorem fetchValue_keyed (e : Cursor) (token : Token) (q : List Token)
    (henters : Enters .blockMappingStart d.column levels levels' opening) :
    (block e false [(0, keyHere d levels q)] levels (q ++ [token])).fetchValue =
      .ok (block e.next false [] levels'
        (q ++ marks opening d.mark ++ [Token.atMark .key d.mark, token, indicator .value e])) := by
  rw [fetchValue_eq]
  cases henters with
  | @deeper b levels hb =>
    show Except.ok _ = _
    simp [keyed, keyHere, block, insert, inFlow, hb, pushChars, push, indicator, marks, Cursor.mark,
      List.filter, Cursor.advance]
  | @level levels =>
    show Except.ok _ = _
    simp [keyed, keyHere, block, insert, inFlow, pushChars, push, indicator, marks, Cursor.mark,
      List.filter, Cursor.advance]

theorem fetchKeyed_block {read : Cursor → Except Error (Token × Cursor)} {t : Token}
    (h : read c = .ok (t, d)) :
    (block c allow [] levels q).fetchKeyed read =
      .ok (block d false (keysHere allow c levels q) levels (q ++ [t])) := by
  rw [fetchKeyed, saveKey_block]
  show read c >>= _ = _
  rw [h]
  rfl

theorem fetchPlain_block {t : Token} {broke : Bool}
    (h : plainScalar false false (levels.headD (-1)) c = .ok (t, broke, d)) :
    (block c allow [] levels q).fetchPlain =
      .ok (block d broke (keysHere allow c levels q) levels (q ++ [t])) := by
  rw [fetchPlain, saveKey_block]
  show plainScalar false false (levels.headD (-1)) c >>= _ = _
  rw [h]
  rfl

/-! ### Scalars -/

theorem dispatch_quoted {double : Bool} (h : d.rest = closingMark double :: r) :
    (block d allow keys levels q).dispatch =
      (block d allow keys levels q).fetchKeyed (quotedScalar double) := by
  cases double with
  | true =>
    have hpeek : d.peek = '"' := peek_of_rest h
    simp [dispatch, block, hpeek, h]
  | false =>
    have hpeek : d.peek = '\'' := peek_of_rest h
    simp [dispatch, block, hpeek, h]

/-- A plain scalar may start with the character, other characters being behind it. -/
structure StartsPlain (ch : Char) (r : List Char) : Prop where
  solid : isSpaceOrTab ch = false ∧ isBreakOrEnd ch = false
  opensOther : Quoting.opensOther ch = false
  followed : (ch = '-' ∨ ch = '?' ∨ ch = ':') → endsWord (r.headD endOfText) = false

theorem dispatch_plain {ch : Char} (h : d.rest = ch :: r) (hstarts : StartsPlain ch r)
    (hsep : d.atSeparatorLine = false) :
    (block d allow keys levels q).dispatch = (block d allow keys levels q).fetchPlain := by
  have hother : ∀ x ∈ "#,[]\x7b\x7d&*!|>'\"%@\x60".toList, (ch == x) = false := by
    intro x hx
    rw [beq_eq_false_iff_ne]
    rintro rfl
    have := hstarts.opensOther
    rw [Quoting.opensOther, List.contains_iff_mem.mpr hx] at this
    cases this
  have hsep' : d.atTriple '-' = false ∧ d.atTriple '.' = false := by
    rwa [atSeparatorLine, Bool.or_eq_false_iff] at hsep
  have hpeek := peek_of_rest h
  have hnext := peekAt_one h
  have hfollowed := hstarts.followed
  rw [← hnext] at hfollowed
  have hlisted : ∀ x ∈ "-?:,[]\x7b\x7d#&*!|>'\"%@`".toList,
      (x = '-' ∨ x = '?' ∨ x = ':') ∨ x ∈ "#,[]\x7b\x7d&*!|>'\"%@\x60".toList :=
    List.forall_iff_forall_mem.mp (by decide)
  have hplain : (block d allow keys levels q).startsPlain = true := by
    unfold startsPlain block
    dsimp only
    rw [hpeek, hstarts.solid.1, hstarts.solid.2]
    by_cases hindicator : ch = '-' ∨ ch = '?' ∨ ch = ':'
    · have hfollowed := hfollowed hindicator
      rcases hindicator with rfl | rfl | rfl <;> simp [hfollowed, inFlow]
    · simp only [not_or] at hindicator
      have hnotMem : ("-?:,[]\x7b\x7d#&*!|>'\"%@`".toList.contains ch) = false := by
        rw [Bool.eq_false_iff]
        intro hmem
        rcases hlisted ch (List.contains_iff_mem.mp hmem) with hch | hch
        · simp_all
        · exact absurd (hother ch hch) (by simp)
      rw [hnotMem]
      rfl
  have hdash : ¬ (ch == '-' && endsWord (d.peekAt 1)) = true := by
    rw [Bool.and_eq_true, beq_iff_eq]
    rintro ⟨rfl, hends⟩
    exact absurd (hfollowed (.inl rfl)) (by rw [hends]; decide)
  have hquestion : ¬ (ch == '?' && ((block d allow keys levels q).inFlow || endsWord (d.peekAt 1))) = true := by
    rw [Bool.and_eq_true, beq_iff_eq]
    rintro ⟨rfl, hends⟩
    exact absurd (hfollowed (.inr (.inl rfl))) (by rw [show endsWord (d.peekAt 1) = true from hends]; decide)
  have hcolon : ¬ (ch == ':' && (block d allow keys levels q).startsValue) = true := by
    rw [Bool.and_eq_true, beq_iff_eq]
    rintro ⟨rfl, hends⟩
    have hends : (!!endsWord (d.peekAt 1)) = true := hends
    rw [hfollowed (.inr (.inr rfl))] at hends
    cases hends
  have hcursor : (block d allow keys levels q).cursor = d := rfl
  unfold dispatch
  simp only [hcursor, hpeek, h, List.isEmpty_cons, hother '%' (by decide), hother '[' (by decide),
    hother '\x7b' (by decide), hother ']' (by decide), hother '\x7d' (by decide),
    hother ',' (by decide), hother '*' (by decide), hother '&' (by decide), hother '!' (by decide),
    hother '|' (by decide), hother '>' (by decide), hother '\'' (by decide), hother '"' (by decide),
    hsep'.1, hsep'.2, Bool.and_false, Bool.false_and, Bool.or_false, Bool.false_eq_true, if_false,
    hdash, hquestion, hcolon, hplain, if_true]

/-- Three equal characters at the start belong to the first word, if nothing behind it starts with one. -/
theorem triple_prefix {ch : Char} {ws y : List Char} (h : (ws ++ y).take 3 = [ch, ch, ch])
    (hy : ∀ c ∈ y.head?, c ≠ ch) : [ch, ch, ch] <+: ws := by
  have hne (c : Char) (z : List Char) (hz : y = c :: z) : c ≠ ch := hy c (by rw [hz]; rfl)
  rcases ws with _ | ⟨a, _ | ⟨b, _ | ⟨c, ws⟩⟩⟩
  all_goals cases y with
  | nil => simp_all
  | cons c' z => simp_all

/-- A text written without quotation marks starts as such a text may. -/
theorem startsPlain_of_form {least : Nat} {t w r : List Char} (hform : PlainForm least t w)
    (hstarts : Quoting.startsOther t = false) (hr : ∀ ch ∈ r.head?, ch = ':' ∨ ch = '\n') :
    ∃ ch v, w ++ r = ch :: v ∧ StartsPlain ch v ∧ isPrinted ch = true ∧ ch ≠ '#' ∧
      ∀ c : Cursor, c.rest = w ++ r → c.atSeparatorLine = false := by
  obtain ⟨ws, x, y, hws, rfl, rfl, hx, hy⟩ := hform.exists_word
  obtain ⟨ch, ws', rfl⟩ := List.exists_cons_of_ne_nil hws.ne_nil
  simp only [Quoting.startsOther, List.cons_append, Bool.or_eq_false_iff, Bool.and_eq_false_iff] at hstarts
  obtain ⟨⟨⟨hother, hindicator⟩, hdashes⟩, hpoints⟩ := hstarts
  have hbehind : ∀ c ∈ (y ++ r).head?, c = ' ' ∨ c = '\n' ∨ c = ':' := by
    intro c hc
    cases y with
    | nil => exact (hr c hc).elim (fun h => .inr (.inr h)) fun h => .inr (.inl h)
    | cons d y => exact (hy c hc).imp id .inl
  refine ⟨ch, ws' ++ (y ++ r), by simp, ⟨hws.solid ch List.mem_cons_self, hother, fun hch => ?_⟩,
    hws.isPrinted ch List.mem_cons_self, fun heq => hws.head_ne (by rw [heq]; rfl), fun c hc => ?_⟩
  · cases ws' with
    | nil =>
      have hall : x.head?.all Quoting.separates = true := by
        cases x with
        | nil => rfl
        | cons d x =>
          obtain rfl := hx d rfl
          rfl
      rcases hch with rfl | rfl | rfl <;> simp [hall] at hindicator
    | cons d ws' => exact hws.not_endsWord d (by simp)
  · have hnot (mark : Char) (hmark : mark = '-' ∨ mark = '.')
        (hstart : [mark, mark, mark].isPrefixOf (ch :: (ws' ++ x)) = false) : c.atTriple mark = false := by
      rw [Bool.eq_false_iff]
      intro htriple
      rw [atTriple, Bool.and_eq_true, beq_iff_eq, hc, List.append_assoc] at htriple
      have hword := triple_prefix htriple.1 fun d hd => by
        rcases hbehind d hd with rfl | rfl | rfl <;> rcases hmark with rfl | rfl <;> decide
      rw [Bool.eq_false_iff, Ne, List.isPrefixOf_iff_prefix] at hstart
      exact hstart (hword.trans (List.prefix_append _ _))
    rw [atSeparatorLine, hnot '-' (.inl rfl) hdashes, hnot '.' (.inr rfl) hpoints]
    rfl

/-- A scalar is read. Behind one without quotation marks, the blanks that follow are passed as well. -/
theorem dispatch_scalar {least : Nat} {style : Style} {t w : List Char} {e e' : Cursor} {broke : Bool}
    (allow : Bool) (levels : List Int) (q : List Token) (hform : ScalarForm least t style w)
    (h : d.Passes w e) (hlevel : levels.headD (-1) < least)
    (hleast : 0 < least) (hcolumn : levels.headD (-1) ≤ d.column)
    (hend : Trails (levels.headD (-1) + 1).toNat e broke e') :
    ∃ token broke' e'', (block d allow [] levels q).dispatch =
        .ok (block e'' broke' (keysHere allow d levels q) levels (q ++ [token])) ∧
      token.kind = .scalar (String.ofList t) style ∧ token.IsBare ∧
        ((e'' = e' ∧ broke' = broke) ∨ (e'' = e ∧ broke' = false)) := by
  cases hform with
  | plain hform hstarts =>
    obtain ⟨token, htoken, hkind, hbare⟩ := plainScalar_eq hform hlevel hleast h hend hcolumn
    obtain ⟨ch, v, hrest, hplain, _, _, hsep⟩ := startsPlain_of_form hform hstarts hend.head
    refine ⟨token, broke, e', ?_, hkind, hbare, .inl ⟨rfl, rfl⟩⟩
    rw [dispatch_plain (h.rest_eq.trans hrest) hplain (hsep d h.rest_eq), fetchPlain_block htoken]
  | @quoted double t w hform =>
    obtain ⟨token, htoken, hkind, hbare⟩ := quotedScalar_eq hform h fun _ => by
      cases hrest : e.rest with
      | nil =>
        rw [peek_of_nil hrest]
        decide
      | cons ch r =>
        rw [peek_of_rest hrest]
        rcases hend.head ch (by simp [hrest]) with rfl | rfl <;> decide
    refine ⟨token, false, e, ?_, hkind, hbare, .inr ⟨rfl, rfl⟩⟩
    rw [dispatch_quoted h.rest_eq, fetchKeyed_block htoken]

end Lexer

end BusinessModel.Yaml
