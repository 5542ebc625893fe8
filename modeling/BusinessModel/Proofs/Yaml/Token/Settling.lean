import BusinessModel.Proofs.Outcome
import BusinessModel.Yaml.Token.Stream
import Mathlib.Tactic.Common

/-!
Tokens that are settled. A token leaves the queue once no key can start at it any more. From then on
nothing that is read changes it or depends on it, so that the tokens of a text are those that reading
would have in the queue at its end if none was taken before.
-/

namespace BusinessModel.Yaml.Lexer

/-- The state without the first tokens of the queue, which have been taken. -/
def trim (n : Nat) (l : Lexer) : Lexer :=
  { l with queue := l.queue.drop n, taken := l.taken + n }

/-- The first tokens of the queue are settled: no possible key is remembered for them. -/
structure Settles (n : Nat) (l : Lexer) : Prop where
  le_length : n ≤ l.queue.length
  late : ∀ e ∈ l.keys, l.taken + n ≤ e.2.number

/-- A step of reading keeps settled tokens as they are, and does the same if they have been taken. -/
structure Respects (op : Lexer → Except Error Lexer) : Prop where
  keeps : ∀ {n l l'}, op l = .ok l' → l.Settles n →
    l'.Settles n ∧ l'.queue.take n = l.queue.take n ∧ l.queue.length ≤ l'.queue.length
  trims : ∀ {n l l'}, op l = .ok l' → l.Settles n → n < l.queue.length →
    op (l.trim n) = .ok (l'.trim n)

namespace Respects

variable {op op' : Lexer → Except Error Lexer}

theorem bind (h : Respects op) (h' : Respects op') : Respects (fun l => op l >>= op') := by
  constructor
  · intro n l l' heq hl
    obtain ⟨m, hm, heq⟩ := bind_eq_ok_iff.mp heq
    obtain ⟨hsettles, htake, hle⟩ := h.keeps hm hl
    obtain ⟨hsettles', htake', hle'⟩ := h'.keeps heq hsettles
    exact ⟨hsettles', htake'.trans htake, Nat.le_trans hle hle'⟩
  · intro n l l' heq hl hn
    obtain ⟨m, hm, heq⟩ := bind_eq_ok_iff.mp heq
    obtain ⟨hsettles, _, hle⟩ := h.keeps hm hl
    rw [h.trims hm hl hn]
    exact h'.trims heq hsettles (Nat.lt_of_lt_of_le hn hle)

/-- A change of the state that adds to the queue at its end at most, and then a step. -/
theorem change {f : Lexer → Lexer} (hqueue : ∀ l, l.queue <+: (f l).queue)
    (htaken : ∀ l, (f l).taken = l.taken) (hkeys : ∀ l, (f l).keys ⊆ l.keys)
    (htrim : ∀ {n l}, n ≤ l.queue.length → f (l.trim n) = (f l).trim n) (h : Respects op) :
    Respects (fun l => op (f l)) := by
  have hsettles {n : Nat} {l : Lexer} (hl : l.Settles n) : (f l).Settles n :=
    ⟨Nat.le_trans hl.le_length (hqueue l).length_le,
      fun e he => htaken l ▸ hl.late e (hkeys l he)⟩
  constructor
  · intro n l l' heq hl
    obtain ⟨hsettles', htake, hle⟩ := h.keeps heq (hsettles hl)
    refine ⟨hsettles', htake.trans ?_, Nat.le_trans (hqueue l).length_le hle⟩
    obtain ⟨ts, hts⟩ := hqueue l
    rw [← hts, List.take_append_of_le_length hl.le_length]
  · intro n l l' heq hl hn
    rw [htrim hl.le_length]
    exact h.trims heq (hsettles hl) (Nat.lt_of_lt_of_le hn (hqueue l).length_le)

/-- A change of the state apart from queue and keys, and then a step. -/
theorem update {f : Lexer → Lexer} (hqueue : ∀ l, (f l).queue = l.queue)
    (htaken : ∀ l, (f l).taken = l.taken) (hkeys : ∀ l, (f l).keys = l.keys)
    (htrim : ∀ n l, f (l.trim n) = (f l).trim n) (h : Respects op) : Respects (fun l => op (f l)) :=
  h.change (fun l => hqueue l ▸ List.prefix_rfl) htaken (fun l => hkeys l ▸ List.Subset.refl _)
    (fun _ => htrim _ _)

theorem pure : Respects .ok := by
  constructor
  · intro n l l' heq hl
    cases heq
    exact ⟨hl, rfl, Nat.le_refl _⟩
  · intro n l l' heq _ _
    cases heq
    rfl

/-- A token is put at the end of the queue. -/
theorem push {t : Lexer → Token} (ht : ∀ n l, t (l.trim n) = t l) (h : Respects op) :
    Respects (fun l => op (l.push (t l))) := by
  refine h.change (fun l => List.prefix_append _ _) (fun _ => rfl) (fun _ => List.Subset.refl _)
    fun {n l} hn => ?_
  rw [ht]
  simp [trim, Lexer.push, List.drop_append_of_le_length hn]

/-- A step that depends on something computed before, which settled tokens play no part in. -/
theorem input {α : Type} {x : Lexer → Except Error α} {k : α → Lexer → Except Error Lexer}
    (hx : ∀ n l, x (l.trim n) = x l) (h : ∀ a, Respects (k a)) :
    Respects (fun l => x l >>= fun a => k a l) := by
  constructor
  · intro n l l' heq hl
    obtain ⟨a, _, heq⟩ := bind_eq_ok_iff.mp heq
    exact (h a).keeps heq hl
  · intro n l l' heq hl hn
    obtain ⟨a, ha, heq⟩ := bind_eq_ok_iff.mp heq
    rw [hx, ha]
    exact (h a).trims heq hl hn

theorem ite {p : Lexer → Prop} [DecidablePred p]
    (hp : ∀ {n l}, n < l.queue.length → (p (l.trim n) ↔ p l)) (h : Respects op)
    (h' : Respects op') : Respects (fun l => if p l then op l else op' l) := by
  constructor
  · intro n l l' heq hl
    split at heq
    · exact h.keeps heq hl
    · exact h'.keeps heq hl
  · intro n l l' heq hl hn
    simp only [hp hn]
    split at heq
    · next hpl =>
      rw [if_pos hpl]
      exact h.trims heq hl hn
    · next hpl =>
      rw [if_neg hpl]
      exact h'.trims heq hl hn

/-- What only fails respects anything. -/
theorem throw (e : Lexer → Error) : Respects (fun l => .error (e l)) := by
  constructor
  · intro n l l' heq
    cases heq
  · intro n l l' heq
    cases heq

end Respects

/-! ### Possible keys -/

/-- The state with other keys. -/
def withKeys (ks : List (Nat × SimpleKey)) (l : Lexer) : Lexer := { l with keys := ks }

/-- Whether a key cannot be on the line of the cursor, or is too far from it. -/
def isStale (c : Cursor) (k : SimpleKey) : Bool :=
  k.place.line != c.line || c.index - k.index > 1024

theorem dropStaleKeys_eq_ok_iff {l m : Lexer} :
    l.dropStaleKeys = .ok m ↔ (∀ e ∈ l.keys, isStale l.cursor e.2 = true → e.2.required = false) ∧
      m = l.withKeys (l.keys.filter fun e => !isStale l.cursor e.2) := by
  unfold dropStaleKeys
  extract_lets stale
  have hstale : ∀ k, stale k = isStale l.cursor k := fun _ => rfl
  simp only [hstale]
  split
  · next i k hfound =>
    have hk := List.find?_some hfound
    have hmem := List.mem_of_find?_eq_some hfound
    rw [Bool.and_eq_true] at hk
    refine iff_of_false (by rintro ⟨⟩) fun h => ?_
    have := h.1 _ hmem hk.1
    simp_all
  · next hfound =>
    have hfree : ∀ e ∈ l.keys, isStale l.cursor e.2 = true → e.2.required = false := by
      intro e he hstale
      have := List.find?_eq_none.mp hfound e he
      simp_all
    exact ⟨fun h => ⟨hfree, (Except.ok.inj h).symm⟩, fun h => by rw [h.2]; rfl⟩

theorem respects_dropStaleKeys : Respects dropStaleKeys := by
  constructor
  · intro n l l' heq hl
    obtain ⟨_, rfl⟩ := dropStaleKeys_eq_ok_iff.mp heq
    exact ⟨⟨hl.le_length, fun e he => hl.late e (List.mem_filter.mp he).1⟩, rfl, Nat.le_refl _⟩
  · intro n l l' heq _ _
    obtain ⟨hfree, rfl⟩ := dropStaleKeys_eq_ok_iff.mp heq
    exact dropStaleKeys_eq_ok_iff.mpr ⟨hfree, rfl⟩

theorem dropKey_of_lookup_none {l : Lexer} (h : l.keys.lookup l.flow.length = none) :
    l.dropKey = .ok l := by
  unfold dropKey
  dsimp only
  rw [h]
  rfl

theorem dropKey_eq_ok_iff {l m : Lexer} :
    l.dropKey = .ok m ↔ (∀ k, l.keys.lookup l.flow.length = some k → k.required = false) ∧
      m = l.withKeys (l.keys.filter (·.1 != l.flow.length)) := by
  cases hlookup : l.keys.lookup l.flow.length with
  | none =>
    have hall : l.keys.filter (·.1 != l.flow.length) = l.keys := by
      refine List.filter_eq_self.mpr fun e he => ?_
      rw [bne_comm]
      exact List.lookup_eq_none_iff.mp hlookup e he
    rw [dropKey_of_lookup_none hlookup, hall]
    exact ⟨fun h => ⟨by rintro k ⟨⟩, (Except.ok.inj h).symm⟩, fun h => by rw [h.2]; rfl⟩
  | some k =>
    unfold dropKey
    dsimp only
    rw [hlookup]
    dsimp only
    cases hk : k.required with
    | true =>
      refine iff_of_false (by rintro ⟨⟩) fun h => ?_
      exact Bool.false_ne_true ((h.1 k rfl).symm.trans hk)
    | false =>
      constructor
      · intro h
        refine ⟨fun k' h' => ?_, (Except.ok.inj h).symm⟩
        rw [← Option.some.inj h', hk]
      · intro h
        rw [h.2]
        rfl

theorem respects_dropKey : Respects dropKey := by
  constructor
  · intro n l l' heq hl
    obtain ⟨_, rfl⟩ := dropKey_eq_ok_iff.mp heq
    exact ⟨⟨hl.le_length, fun e he => hl.late e (List.mem_filter.mp he).1⟩, rfl, Nat.le_refl _⟩
  · intro n l l' heq _ _
    obtain ⟨hfree, rfl⟩ := dropKey_eq_ok_iff.mp heq
    exact dropKey_eq_ok_iff.mpr ⟨hfree, rfl⟩

/-- The key that is remembered for the next token. -/
def nextKey (l : Lexer) : SimpleKey :=
  ⟨l.taken + l.queue.length, !l.inFlow && l.indent == l.cursor.column, l.cursor.index, l.cursor.mark⟩

theorem saveKey_eq (l : Lexer) :
    l.saveKey = if l.allowKey then
        l.dropKey >>= fun l' => .ok { l' with keys := l'.keys ++ [(l.flow.length, l.nextKey)] }
      else .ok l := by
  unfold saveKey
  cases l.allowKey <;> rfl

theorem taken_dropKey {l l' : Lexer} (h : l.dropKey = .ok l') :
    l'.taken = l.taken ∧ l'.queue = l.queue := by
  obtain ⟨_, rfl⟩ := dropKey_eq_ok_iff.mp h
  exact ⟨rfl, rfl⟩

theorem nextKey_trim {n : Nat} {l : Lexer} (h : n ≤ l.queue.length) :
    (l.trim n).nextKey = l.nextKey := by
  have hnumber : l.taken + n + (l.queue.drop n).length = l.taken + l.queue.length := by
    rw [List.length_drop]
    omega
  simp only [nextKey, trim, hnumber]
  rfl

theorem respects_saveKey : Respects saveKey := by
  constructor
  · intro n l l' heq hl
    rw [saveKey_eq] at heq
    split at heq
    · obtain ⟨m, hm, heq⟩ := bind_eq_ok_iff.mp heq
      cases heq
      obtain ⟨hsettles, htake, hle⟩ := respects_dropKey.keeps hm hl
      refine ⟨⟨hsettles.le_length, fun e he => ?_⟩, htake, hle⟩
      rcases List.mem_append.mp he with he | he
      · exact hsettles.late e he
      · rw [List.mem_singleton.mp he]
        have := hl.le_length
        simp only [nextKey, (taken_dropKey hm).1]
        omega
    · cases heq
      exact ⟨hl, rfl, Nat.le_refl _⟩
  · intro n l l' heq hl hn
    rw [saveKey_eq] at heq ⊢
    rw [show (l.trim n).allowKey = l.allowKey from rfl]
    split at heq
    · next hallow =>
      obtain ⟨m, hm, heq⟩ := bind_eq_ok_iff.mp heq
      cases heq
      rw [if_pos hallow, respects_dropKey.trims hm hl hn, nextKey_trim hl.le_length]
      rfl
    · next hallow =>
      rw [if_neg hallow]
      cases heq
      rfl

/-! ### Blocks -/

theorem unwindTo_eq (column : Int) (levels : List Int) (l : Lexer) :
    ∃ (indent : Int) (indents : List Int) (ends : List Token), ∀ (l' : Lexer),
      l'.indent = l.indent → l'.indents = l.indents → l'.cursor = l.cursor →
        unwindTo column levels l' = { l' with indent, indents, queue := l'.queue ++ ends } := by
  induction levels generalizing l with
  | nil =>
    refine ⟨l.indent, l.indents, [], fun l' hindent hindents _ => ?_⟩
    rw [unwindTo, List.append_nil, ← hindent, ← hindents]
  | cons outer rest ih =>
    by_cases hcolumn : l.indent > column
    · obtain ⟨indent, indents, ends, hrest⟩ :=
        ih ({ l with indent := outer, indents := rest }.pushEmpty .blockEnd)
      refine ⟨indent, indents, Token.atMark .blockEnd l.cursor.mark :: ends,
        fun l' hindent _ hcursor => ?_⟩
      rw [unwindTo, if_pos (hindent ▸ hcolumn)]
      refine (hrest ({ l' with indent := outer, indents := rest }.pushEmpty .blockEnd) rfl rfl
        hcursor).trans ?_
      simp [pushEmpty, Lexer.push, hcursor]
    · refine ⟨l.indent, l.indents, [], fun l' hindent hindents _ => ?_⟩
      rw [unwindTo, if_neg (hindent ▸ hcolumn), List.append_nil, ← hindent, ← hindents]

/-- The state with blocks closed: only tokens at the end of the queue are new. -/
theorem unwind_eq (column : Int) (l : Lexer) :
    ∃ (indent : Int) (indents : List Int) (ends : List Token), ∀ (l' : Lexer),
      l'.indent = l.indent → l'.indents = l.indents → l'.cursor = l.cursor → l'.flow = l.flow →
        l'.unwind column = { l' with indent, indents, queue := l'.queue ++ ends } := by
  by_cases hflow : l.inFlow = true
  · refine ⟨l.indent, l.indents, [], fun l' hindent hindents _ hflow' => ?_⟩
    have hinFlow : l'.inFlow = true := by rw [inFlow, hflow']; exact hflow
    rw [unwind, if_pos hinFlow, List.append_nil, ← hindent, ← hindents]
  · obtain ⟨indent, indents, ends, heq⟩ := unwindTo_eq column l.indents l
    refine ⟨indent, indents, ends, fun l' hindent hindents hcursor hflow' => ?_⟩
    have hinFlow : ¬ l'.inFlow = true := by rw [inFlow, hflow']; exact hflow
    rw [unwind, if_neg hinFlow, hindents, heq l' hindent hindents hcursor]

/-- Blocks are closed, and then there is a step. -/
theorem Respects.unwind {op : Lexer → Except Error Lexer} {i : Lexer → Int}
    (hcolumn : ∀ n l, i (l.trim n) = i l) (h : Respects op) :
    Respects (fun l => op (l.unwind (i l))) := by
  refine h.change (fun l => ?_) (fun l => ?_) (fun l => ?_) fun {n l} hn => ?_
  all_goals obtain ⟨indent, indents, ends, heq⟩ := unwind_eq (i l) l
  · rw [heq l rfl rfl rfl rfl]
    exact List.prefix_append _ _
  · rw [heq l rfl rfl rfl rfl]
  · rw [heq l rfl rfl rfl rfl]
    exact List.Subset.refl _
  · rw [hcolumn, heq l rfl rfl rfl rfl, heq (l.trim n) rfl rfl rfl rfl]
    simp [trim, List.drop_append_of_le_length hn]

/-- A block that starts at the column of the cursor, if it lies deeper than the current one. -/
def enter (start : TokenKind) (problem : Problem) (l : Lexer) : Except Error Lexer :=
  if l.inFlow then .ok l
  else if !l.allowKey then .error (.at none problem l.cursor.mark)
  else if l.indent < l.cursor.column then
    .ok ({ l with indents := l.indent :: l.indents, indent := l.cursor.column }.pushEmpty start)
  else .ok l

theorem respects_enter (start : TokenKind) (problem : Problem) :
    Respects (enter start problem) := by
  refine .ite (fun _ => Iff.rfl) .pure (.ite (fun _ => Iff.rfl) (.throw _) ?_)
  refine .ite (fun _ => Iff.rfl) ?_ .pure
  exact (Respects.push (t := fun l => Token.atMark start l.cursor.mark) (fun _ _ => rfl) .pure).update
    (f := fun l => { l with indents := l.indent :: l.indents, indent := l.cursor.column })
    (fun _ => rfl) (fun _ => rfl) (fun _ => rfl) (fun _ _ => rfl)

/-! ### Tokens -/

/-- A token of some characters at the cursor is the last thing that is read. -/
theorem respects_pushChars (kind : TokenKind) (n : Nat) :
    Respects (fun l => .ok (l.pushChars kind n)) := by
  refine (Respects.pure.change (f := fun l => l.pushChars kind n) (fun l => ?_) (fun _ => rfl)
    (fun _ => List.Subset.refl _) fun {m l} hm => ?_)
  · exact List.prefix_append _ _
  · simp [trim, pushChars, Lexer.push, List.drop_append_of_le_length hm]

/-- No key is remembered any more, and a token of some characters is read. -/
theorem respects_dropKey_pushChars (kind : TokenKind) (n : Nat) :
    Respects (fun l => l.dropKey >>= fun l => .ok (l.pushChars kind n)) :=
  respects_dropKey.bind (respects_pushChars kind n)

theorem fetchStreamEnd_eq (l : Lexer) :
    l.fetchStreamEnd = (l.unwind (-1)).dropKey >>= fun l =>
      .ok ({ l with allowKey := false, keys := [], done := true }.pushEmpty .streamEnd) := rfl

theorem respects_fetchStreamEnd : Respects fetchStreamEnd := by
  refine .unwind (i := fun _ => -1) (fun _ _ => rfl) (respects_dropKey.bind ?_)
  refine (Respects.push (t := fun l => Token.atMark .streamEnd l.cursor.mark) (fun _ _ => rfl)
    .pure).change (f := fun l => { l with allowKey := false, keys := [], done := true })
    (fun _ => List.prefix_rfl) (fun _ => rfl) (fun _ => List.nil_subset _) (fun _ => rfl)

theorem respects_fetchDocumentLine (kind : TokenKind) : Respects (fetchDocumentLine kind) := by
  refine .unwind (i := fun _ => -1) (fun _ _ => rfl) (respects_dropKey.bind ?_)
  exact (respects_pushChars kind 3).update (f := fun l => { l with allowKey := false })
    (fun _ => rfl) (fun _ => rfl) (fun _ => rfl) (fun _ _ => rfl)

/-- A token that has been read is put into the queue, and reading goes on behind it. -/
theorem respects_took (t : Token) (allowKey : Bool) (c : Cursor) (version : Option (Nat × Nat)) :
    Respects (fun l => .ok ({ l with allowKey, cursor := c, version }.push t)) :=
  (Respects.push (t := fun _ => t) (fun _ _ => rfl) .pure).update
    (f := fun l => { l with allowKey, cursor := c, version })
    (fun _ => rfl) (fun _ => rfl) (fun _ => rfl) (fun _ _ => rfl)

/-- The directive at the cursor, with the cursor behind its line and the version it declares. -/
def directive (l : Lexer) : Except Error (Token × Cursor × Option (Nat × Nat)) := do
  let start := l.cursor.mark
  let (name, c) ← directiveName start l.cursor.next
  let (kind, c) ←
    if name == "YAML" then versionDirective start c
    else if name == "TAG" then tagDirective l.oldVersion start c
    else pure (.otherDirective, c.skipWhile (!endsLine ·))
  let version := match kind with
    | .versionDirective major minor => some (major, minor)
    | _ => l.version
  let (_, after) ← ignoredLine .directive start c
  return ({ kind, startMark := start, endMark := c.mark }, after, version)

theorem fetchDirective_eq (l : Lexer) :
    l.fetchDirective = (l.unwind (-1)).dropKey >>= fun l => l.directive >>= fun a =>
      .ok ({ l with allowKey := false, cursor := a.2.1, version := a.2.2 }.push a.1) := by
  unfold fetchDirective directive
  simp only [bind_assoc, pure_bind]
  congr 1
  funext l
  congr 1
  funext a
  split
  · simp only [bind_assoc]
    rfl
  · split <;> simp only [bind_assoc, pure_bind] <;> rfl

theorem respects_fetchDirective : Respects fetchDirective := by
  rw [funext fetchDirective_eq]
  refine .unwind (i := fun _ => -1) (fun _ _ => rfl) (respects_dropKey.bind ?_)
  exact .input (x := directive) (fun _ _ => rfl) fun a => respects_took a.1 false a.2.1 a.2.2

theorem respects_fetchFlowStart (sequence : Bool) : Respects (fetchFlowStart sequence) := by
  refine respects_saveKey.bind ?_
  exact (respects_pushChars _ 1).update
    (f := fun l => { l with flow := sequence :: l.flow, allowKey := true })
    (fun _ => rfl) (fun _ => rfl) (fun _ => rfl) (fun _ _ => rfl)

theorem respects_fetchFlowEnd (kind : TokenKind) : Respects (fetchFlowEnd kind) := by
  refine respects_dropKey.bind ?_
  exact (respects_pushChars kind 1).update
    (f := fun l => { l with flow := l.flow.tail, allowKey := false })
    (fun _ => rfl) (fun _ => rfl) (fun _ => rfl) (fun _ _ => rfl)

theorem respects_fetchFlowEntry : Respects fetchFlowEntry :=
  (respects_dropKey_pushChars .flowEntry 1).update (f := fun l => { l with allowKey := true })
    (fun _ => rfl) (fun _ => rfl) (fun _ => rfl) (fun _ _ => rfl)

theorem fetchBlockEntry_eq (l : Lexer) :
    l.fetchBlockEntry = l.enter .blockSequenceStart .sequenceNotAllowed >>= fun l =>
      { l with allowKey := true }.dropKey >>= fun l => .ok (l.pushChars .blockEntry 1) := by
  unfold fetchBlockEntry enter openBlock?
  cases l.inFlow <;> cases l.allowKey <;> by_cases h : l.indent < l.cursor.column <;> simp [h] <;> rfl

/-- A block is entered if need be, no key is remembered any more, and a token of one character is
read. -/
theorem respects_enter_pushChars (start : TokenKind) (problem : Problem) (kind : TokenKind)
    (allowKey : Lexer → Bool) (hallow : ∀ n l, allowKey (l.trim n) = allowKey l) :
    Respects (fun l => l.enter start problem >>= fun l =>
      { l with allowKey := allowKey l }.dropKey >>= fun l => .ok (l.pushChars kind 1)) :=
  (respects_enter start problem).bind <|
    (respects_dropKey_pushChars kind 1).update (f := fun l => { l with allowKey := allowKey l })
      (fun _ => rfl) (fun _ => rfl) (fun _ => rfl)
      (fun n l => by
        show { l.trim n with allowKey := allowKey (l.trim n) } = _
        rw [hallow]
        rfl)

theorem respects_fetchBlockEntry : Respects fetchBlockEntry := by
  rw [funext fetchBlockEntry_eq]
  exact respects_enter_pushChars _ _ _ (fun _ => true) fun _ _ => rfl

theorem fetchKey_eq (l : Lexer) :
    l.fetchKey = l.enter .blockMappingStart .keyNotAllowed >>= fun l =>
      { l with allowKey := !l.inFlow }.dropKey >>= fun l => .ok (l.pushChars .key 1) := by
  unfold fetchKey enter openBlock?
  cases l.inFlow <;> cases l.allowKey <;> by_cases h : l.indent < l.cursor.column <;> simp [h] <;> rfl

theorem respects_fetchKey : Respects fetchKey := by
  rw [funext fetchKey_eq]
  exact respects_enter_pushChars _ _ _ (fun l => !l.inFlow) fun _ _ => rfl

/-- The state in which a colon has made the token at a remembered place a key. -/
def keyed (k : SimpleKey) (l : Lexer) : Lexer :=
  let l := { l with keys := l.keys.filter (·.1 != l.flow.length) }
  let l := l.insert k.number (Token.atMark .key k.place)
  if !l.inFlow && decide (l.indent < (k.place.column : Int)) then
    { l with indents := l.indent :: l.indents, indent := k.place.column }.insert k.number
      (Token.atMark .blockMappingStart k.place)
  else l

theorem fetchValue_eq (l : Lexer) :
    l.fetchValue = match l.keys.lookup l.flow.length with
      | some k => .ok ({ l.keyed k with allowKey := false }.pushChars .value 1)
      | none => l.enter .blockMappingStart .valueNotAllowed >>= fun l =>
        { l with allowKey := !l.inFlow }.dropKey >>= fun l => .ok (l.pushChars .value 1) := by
  unfold fetchValue
  dsimp only
  cases l.keys.lookup l.flow.length with
  | none =>
    unfold enter openBlock?
    cases l.inFlow <;> cases l.allowKey <;> by_cases h : l.indent < l.cursor.column <;> simp [h] <;>
      rfl
  | some k =>
    dsimp only [keyed, openBlock?, insert, inFlow]
    cases l.flow with
    | nil =>
      by_cases h : l.indent < k.place.column
      · simp only [h]
        rfl
      · simp only [h]
        rfl
    | cons sequence outer => rfl

/-- A token is put into the queue behind settled ones. -/
theorem settles_insert {n number : Nat} {l : Lexer} (hl : l.Settles n) (hnumber : l.taken + n ≤ number)
    (t : Token) :
    (l.insert number t).Settles n ∧ (l.insert number t).queue.take n = l.queue.take n ∧
      l.queue.length < (l.insert number t).queue.length ∧
      (l.trim n).insert number t = (l.insert number t).trim n := by
  have hle := hl.le_length
  have hfront : n ≤ (l.queue.take (number - l.taken)).length := by
    rw [List.length_take]
    omega
  have hlength : (l.insert number t).queue.length = l.queue.length + 1 := by
    simp only [insert, List.length_append, List.length_cons, List.length_take, List.length_drop]
    omega
  refine ⟨⟨by rw [hlength]; omega, hl.late⟩, ?_, by rw [hlength]; omega, ?_⟩
  · rw [insert, List.take_append_of_le_length hfront, List.take_take, Nat.min_eq_left (by omega)]
  · have hindex : number - (l.taken + n) = number - l.taken - n := by omega
    have hrest : n + (number - l.taken - n) = number - l.taken := by omega
    simp only [insert, trim, hindex, List.drop_append_of_le_length hfront, List.drop_take,
      List.drop_drop, hrest]

/-- A token behind the settled ones becomes a key. -/
theorem settles_keyed {n : Nat} {l : Lexer} {k : SimpleKey} (hl : l.Settles n)
    (hk : l.taken + n ≤ k.number) :
    (l.keyed k).Settles n ∧ (l.keyed k).queue.take n = l.queue.take n ∧
      l.queue.length < (l.keyed k).queue.length ∧ (l.trim n).keyed k = (l.keyed k).trim n := by
  have hfiltered : Settles n { l with keys := l.keys.filter (·.1 != l.flow.length) } :=
    ⟨hl.le_length, fun e he => hl.late e (List.mem_filter.mp he).1⟩
  obtain ⟨hsettles, htake, hlt, htrim⟩ := settles_insert hfiltered hk (Token.atMark .key k.place)
  unfold keyed
  dsimp only
  split
  · next hdeep =>
    obtain ⟨hsettles', htake', hlt', htrim'⟩ := settles_insert (n := n)
      (l := { ({ l with keys := l.keys.filter (·.1 != l.flow.length) } : Lexer).insert k.number
          (Token.atMark .key k.place) with indents := l.indent :: l.indents, indent := k.place.column })
      ⟨hsettles.le_length, hsettles.late⟩ hk (Token.atMark .blockMappingStart k.place)
    refine ⟨hsettles', htake'.trans htake, Nat.lt_trans hlt hlt', ?_⟩
    rw [if_pos (by exact hdeep)]
    refine Eq.trans ?_ htrim'
    exact congrArg (fun m : Lexer =>
      Lexer.insert { m with indents := l.indent :: l.indents, indent := k.place.column } k.number
        (Token.atMark .blockMappingStart k.place)) htrim
  · next hdeep =>
    refine ⟨hsettles, htake, hlt, ?_⟩
    rw [if_neg (by exact hdeep)]
    exact htrim

theorem respects_fetchValue : Respects fetchValue := by
  have hbare : Respects fun l => l.enter .blockMappingStart .valueNotAllowed >>= fun l =>
      { l with allowKey := !l.inFlow }.dropKey >>= fun l => .ok (l.pushChars .value 1) :=
    respects_enter_pushChars _ _ _ (fun l => !l.inFlow) fun _ _ => rfl
  have hvalue : Respects fun l => .ok ({ l with allowKey := false }.pushChars .value 1) :=
    (respects_pushChars .value 1).update (f := fun l => { l with allowKey := false })
      (fun _ => rfl) (fun _ => rfl) (fun _ => rfl) (fun _ _ => rfl)
  have hlate {n : Nat} {l : Lexer} {k : SimpleKey} (hl : l.Settles n)
      (hk : l.keys.lookup l.flow.length = some k) : l.taken + n ≤ k.number := by
    obtain ⟨front, back, hkeys, _⟩ := List.lookup_eq_some_iff.mp hk
    exact hl.late _ (hkeys ▸ List.mem_append_right _ List.mem_cons_self)
  constructor
  · intro n l l' heq hl
    rw [fetchValue_eq] at heq
    split at heq
    · next k hk =>
      obtain ⟨hsettles, htake, hlt, _⟩ := settles_keyed hl (hlate hl hk)
      obtain ⟨hsettles', htake', hle⟩ := hvalue.keeps heq hsettles
      exact ⟨hsettles', htake'.trans htake, Nat.le_trans (Nat.le_of_lt hlt) hle⟩
    · exact hbare.keeps heq hl
  · intro n l l' heq hl hn
    rw [fetchValue_eq] at heq ⊢
    rw [show (l.trim n).keys.lookup (l.trim n).flow.length = l.keys.lookup l.flow.length from rfl]
    split at heq
    · next k hk =>
      obtain ⟨hsettles, _, hlt, htrim⟩ := settles_keyed hl (hlate hl hk)
      rw [htrim]
      exact hvalue.trims heq hsettles (Nat.lt_trans hn hlt)
    · exact hbare.trims heq hl hn

theorem respects_fetchKeyed (read : Cursor → Except Error (Token × Cursor)) :
    Respects (fetchKeyed read) :=
  respects_saveKey.bind <| .input (x := fun l => read l.cursor) (fun _ _ => rfl) fun a =>
    (Respects.push (t := fun _ => a.1) (fun _ _ => rfl) .pure).update
      (f := fun l => { l with allowKey := false, cursor := a.2 })
      (fun _ => rfl) (fun _ => rfl) (fun _ => rfl) (fun _ _ => rfl)

theorem respects_fetchTag : Respects (fun l => l.fetchKeyed (tagToken l.oldVersion)) := by
  have hcases : (fun l : Lexer => l.fetchKeyed (tagToken l.oldVersion)) = fun l =>
      if l.oldVersion then l.fetchKeyed (tagToken true) else l.fetchKeyed (tagToken false) := by
    funext l
    cases l.oldVersion <;> rfl
  rw [hcases]
  exact .ite (fun _ => Iff.rfl) (respects_fetchKeyed _) (respects_fetchKeyed _)

theorem respects_fetchPlain : Respects fetchPlain :=
  respects_saveKey.bind <| .input
    (x := fun l => plainScalar l.inFlow l.oldVersion l.indent l.cursor) (fun _ _ => rfl) fun a =>
      (Respects.push (t := fun _ => a.1) (fun _ _ => rfl) .pure).update
        (f := fun l => { l with allowKey := a.2.1, cursor := a.2.2 })
        (fun _ => rfl) (fun _ => rfl) (fun _ => rfl) (fun _ _ => rfl)

/-- The blanks at the cursor, which are passed without a look at the queue. -/
def blanksAhead (l : Lexer) : Option Mark × Bool × Cursor :=
  let c := if l.cursor.index == 0 && l.cursor.peek == byteOrderMark then l.cursor.next else l.cursor
  blanks l.inFlow (c.size + 1) l.allowKey c

/-- The state behind the blanks. -/
def pastBlanks (l : Lexer) : Lexer :=
  { l with cursor := l.blanksAhead.2.2, allowKey := l.blanksAhead.2.1 }

theorem skipBlanks_eq (l : Lexer) : l.skipBlanks = (l.blanksAhead.1, l.pastBlanks) := rfl

theorem skipComments_eq (fuel : Nat) (l : Lexer) :
    ∃ (allowKey : Bool) (c : Cursor), ∀ l' : Lexer, l'.cursor = l.cursor → l'.flow = l.flow →
      l'.allowKey = l.allowKey → skipComments fuel l' = { l' with cursor := c, allowKey } := by
  induction fuel generalizing l with
  | zero => exact ⟨l.allowKey, l.cursor, fun l' hcursor _ hallow => by rw [← hcursor, ← hallow]; rfl⟩
  | succ fuel ih =>
    have hahead (l' : Lexer) (hcursor : l'.cursor = l.cursor) (hflow : l'.flow = l.flow)
        (hallow : l'.allowKey = l.allowKey) : l'.blanksAhead = l.blanksAhead := by
      simp only [blanksAhead, inFlow, hcursor, hflow, hallow]
    obtain ⟨allowKey, c, hrest⟩ := ih l.pastBlanks
    cases hcomment : l.blanksAhead.1 with
    | none =>
      refine ⟨l.blanksAhead.2.1, l.blanksAhead.2.2, fun l' hcursor hflow hallow => ?_⟩
      rw [skipComments, skipBlanks_eq, pastBlanks, hahead l' hcursor hflow hallow, hcomment]
    | some start =>
      refine ⟨allowKey, c, fun l' hcursor hflow hallow => ?_⟩
      rw [skipComments, skipBlanks_eq, pastBlanks, hahead l' hcursor hflow hallow, hcomment]
      exact hrest _ rfl hflow rfl

/-- The state behind a block scalar, past the comments that belong to it. -/
def behindBlock (trailing : Bool) (c : Cursor) (l : Lexer) : Lexer :=
  if trailing then skipComments (c.size + 1) { l with cursor := c } else { l with cursor := c }

theorem behindBlock_eq (trailing : Bool) (c : Cursor) (l : Lexer) :
    ∃ (allowKey : Bool) (c' : Cursor), ∀ l' : Lexer, l'.flow = l.flow → l'.allowKey = l.allowKey →
      behindBlock trailing c l' = { l' with cursor := c', allowKey } := by
  cases trailing with
  | false => exact ⟨l.allowKey, c, fun l' _ hallow => by rw [← hallow]; rfl⟩
  | true =>
    obtain ⟨allowKey, c', heq⟩ := skipComments_eq (c.size + 1) { l with cursor := c }
    exact ⟨allowKey, c', fun l' hflow hallow => heq { l' with cursor := c } rfl hflow hallow⟩

theorem respects_behindBlock_push (trailing : Bool) (c : Cursor) (t : Token) :
    Respects (fun l => .ok ((l.behindBlock trailing c).push t)) := by
  refine (Respects.push (t := fun _ => t) (fun _ _ => rfl) .pure).update
    (f := behindBlock trailing c) (fun l => ?_) (fun l => ?_) (fun l => ?_) fun n l => ?_
  all_goals obtain ⟨allowKey, c', heq⟩ := behindBlock_eq trailing c l
  · rw [heq l rfl rfl]
  · rw [heq l rfl rfl]
  · rw [heq l rfl rfl]
  · rw [heq l rfl rfl, heq (l.trim n) rfl rfl]
    rfl

theorem fetchBlockScalar_eq (l : Lexer) :
    l.fetchBlockScalar = { l with allowKey := true }.dropKey >>= fun l =>
      blockScalar l.indent l.cursor >>= fun a => .ok ((l.behindBlock a.2.1 a.2.2).push a.1) := rfl

theorem respects_fetchBlockScalar : Respects fetchBlockScalar := by
  rw [funext fetchBlockScalar_eq]
  have hread : Respects fun l => l.dropKey >>= fun l => blockScalar l.indent l.cursor >>= fun a =>
      .ok ((l.behindBlock a.2.1 a.2.2).push a.1) := by
    refine respects_dropKey.bind (.input (x := fun l => blockScalar l.indent l.cursor)
      (fun _ _ => rfl) fun a => ?_)
    exact respects_behindBlock_push _ _ _
  exact hread.update (f := fun l => { l with allowKey := true })
    (fun _ => rfl) (fun _ => rfl) (fun _ => rfl) (fun _ _ => rfl)

/-! ### One step -/

/-- Reads the token at the cursor. -/
def dispatch (l : Lexer) : Except Error Lexer :=
  let c := l.cursor
  let ch := c.peek
  if c.rest.isEmpty then l.fetchStreamEnd
  else if ch == '%' && c.column == 0 then l.fetchDirective
  else if ch == '-' && c.column == 0 && c.atTriple '-' then l.fetchDocumentLine .documentStart
  else if ch == '.' && c.column == 0 && c.atTriple '.' then l.fetchDocumentLine .documentEnd
  else if ch == '[' then l.fetchFlowStart true
  else if ch == '\x7b' then l.fetchFlowStart false
  else if ch == ']' then l.fetchFlowEnd .flowSequenceEnd
  else if ch == '\x7d' then l.fetchFlowEnd .flowMappingEnd
  else if ch == ',' then l.fetchFlowEntry
  else if ch == '-' && endsWord (c.peekAt 1) then l.fetchBlockEntry
  else if ch == '?' && (l.inFlow || endsWord (c.peekAt 1)) then l.fetchKey
  else if ch == ':' && l.startsValue then l.fetchValue
  else if ch == '*' then l.fetchKeyed (anchorToken true)
  else if ch == '&' then l.fetchKeyed (anchorToken false)
  else if ch == '!' then l.fetchKeyed (tagToken l.oldVersion)
  else if (ch == '|' || ch == '>') && !l.inFlow then l.fetchBlockScalar
  else if ch == '\'' then l.fetchKeyed (quotedScalar false)
  else if ch == '"' then l.fetchKeyed (quotedScalar true)
  else if l.startsPlain then l.fetchPlain
  else .error (.at (some (.nextToken, c.mark)) (.cannotStart ch) c.mark)

/-- Reads the comment that has been passed, or else the token behind the blanks. -/
def behindBlanks (comment : Option Mark) (l : Lexer) : Except Error Lexer :=
  match comment with
  | some start => .ok (l.push { kind := .comment, startMark := start, endMark := l.cursor.mark })
  | none => l.dropStaleKeys >>= fun l => (l.unwind l.cursor.column).dispatch

theorem fetch_eq (l : Lexer) :
    l.fetch = behindBlanks l.blanksAhead.1 l.pastBlanks := by
  unfold fetch
  rw [skipBlanks_eq]
  cases l.blanksAhead.1 <;> rfl

theorem startsValue_trim {n : Nat} {l : Lexer} (hn : n < l.queue.length) :
    (l.trim n).startsValue = l.startsValue := by
  unfold startsValue
  have hlast : (l.queue.drop n).getLast? = l.queue.getLast? := by
    rw [List.getLast?_drop, if_neg (by omega)]
  simp only [trim, oldVersion, hlast]
  rfl

theorem respects_dispatch : Respects dispatch := by
  unfold dispatch
  dsimp only
  refine .ite (fun _ => Iff.rfl) respects_fetchStreamEnd ?_
  refine .ite (fun _ => Iff.rfl) respects_fetchDirective ?_
  refine .ite (fun _ => Iff.rfl) (respects_fetchDocumentLine _) ?_
  refine .ite (fun _ => Iff.rfl) (respects_fetchDocumentLine _) ?_
  refine .ite (fun _ => Iff.rfl) (respects_fetchFlowStart _) ?_
  refine .ite (fun _ => Iff.rfl) (respects_fetchFlowStart _) ?_
  refine .ite (fun _ => Iff.rfl) (respects_fetchFlowEnd _) ?_
  refine .ite (fun _ => Iff.rfl) (respects_fetchFlowEnd _) ?_
  refine .ite (fun _ => Iff.rfl) respects_fetchFlowEntry ?_
  refine .ite (fun _ => Iff.rfl) respects_fetchBlockEntry ?_
  refine .ite (fun _ => Iff.rfl) respects_fetchKey ?_
  refine .ite (fun hn => by rw [startsValue_trim hn]; exact Iff.rfl) respects_fetchValue ?_
  refine .ite (fun _ => Iff.rfl) (respects_fetchKeyed _) ?_
  refine .ite (fun _ => Iff.rfl) (respects_fetchKeyed _) ?_
  refine .ite (fun _ => Iff.rfl) respects_fetchTag ?_
  refine .ite (fun _ => Iff.rfl) respects_fetchBlockScalar ?_
  refine .ite (fun _ => Iff.rfl) (respects_fetchKeyed _) ?_
  refine .ite (fun _ => Iff.rfl) (respects_fetchKeyed _) ?_
  exact .ite (fun _ => Iff.rfl) respects_fetchPlain (.throw _)

/-- One step of reading respects settled tokens. -/
theorem respects_fetch : Respects fetch := by
  rw [funext fetch_eq]
  refine .input (x := fun l => .ok l.blanksAhead)
    (k := fun a l => behindBlanks a.1 { l with cursor := a.2.2, allowKey := a.2.1 })
    (fun _ _ => rfl) fun a => .update (f := fun l => { l with cursor := a.2.2, allowKey := a.2.1 })
      (fun _ => rfl) (fun _ => rfl) (fun _ => rfl) (fun _ _ => rfl) ?_
  cases a.1 with
  | some start =>
    exact .push (t := fun l => { kind := .comment, startMark := start, endMark := l.cursor.mark })
      (fun _ _ => rfl) .pure
  | none =>
    exact respects_dropStaleKeys.bind <|
      respects_dispatch.unwind (i := fun l => l.cursor.column) fun _ _ => rfl

end BusinessModel.Yaml.Lexer
