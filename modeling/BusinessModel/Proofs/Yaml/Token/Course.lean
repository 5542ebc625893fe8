import BusinessModel.Proofs.Yaml.Token.Layout

/-!
The course of reading through a layout. A state stands behind an indicator, or it awaits the next token,
which may close blocks. Each part of a layout takes one to the other, and adds its tokens.
-/

namespace BusinessModel.Yaml.Lexer

open Cursor

/-- Reading goes from one state to the other. -/
def Leads (l l' : Lexer) : Prop := ∀ ts, Reads l' ts → Reads l ts

theorem Leads.refl (l : Lexer) : Leads l l := fun _ => id

theorem Leads.step {l l' l'' : Lexer} (h : Leads l l') (hstep : Step l' l'') : Leads l l'' :=
  fun ts hts => h ts (.step hstep hts)

/-- The state has been read up to a cursor behind an indicator, and has had tokens of some kinds. -/
def Stands (l : Lexer) (c : Cursor) (allow : Bool) (levels : List Int) (ks : List TokenKind) : Prop :=
  ∃ q, q.map (·.kind) = ks ∧ (∀ t ∈ q, t.IsBare) ∧ Leads l (block c allow [] levels q)

/-- The next token is at a cursor, and no key is remembered there; `allow` says whether a key may start
with it. Blocks it closes count as closed: their columns are not among the levels. -/
inductive Waiting (d : Cursor) (allow : Bool) (levels : List Int) : List TokenKind → Lexer → Prop where
  | intro {c : Cursor} {a allow' : Bool} {keys : List (Nat × SimpleKey)} {opened : List Int}
      {q : List Token}
      (hblanks : (block c a keys (opened ++ levels) q).blanksAhead = (none, allow', d))
      (hpast : ∀ e ∈ keys, e.2.required = false ∧ e.2.place.line ≤ c.line)
      (hlevel : ∀ i ∈ opened, -1 < i) (hsize : d.size ≤ c.size) (hbare : ∀ t ∈ q, t.IsBare)
      (hnext : d.rest ≠ [] → allow' = allow ∧ (∀ e ∈ keys, isStale d e.2 = true) ∧
        ∀ i ∈ opened, (d.column : Int) < i) :
      Waiting d allow levels (q.map (·.kind) ++ List.replicate opened.length .blockEnd)
        (block c a keys (opened ++ levels) q)

/-- The state has been read up to a place where the next token is at a cursor, and has had tokens of some
kinds. -/
def Awaits (l : Lexer) (d : Cursor) (allow : Bool) (levels : List Int) (ks : List TokenKind) : Prop :=
  ∃ l', Waiting d allow levels ks l' ∧ Leads l l'

variable {l : Lexer} {c d e : Cursor} {allow : Bool} {levels levels' : List Int} {b : Int} {n k : Nat}
  {ks opening : List TokenKind} {r w : List Char}

theorem awaits_of_blanks {q : List Token} {allow' : Bool} (hleads : Leads l (block c allow [] levels q))
    (hblanks : (block c allow [] levels q).blanksAhead = (none, allow', d)) (hsize : d.size ≤ c.size)
    (hbare : ∀ t ∈ q, t.IsBare) : Awaits l d allow' levels (q.map (·.kind)) := by
  refine ⟨_, ?_, hleads⟩
  have hnone : ∀ e ∈ ([] : List (Nat × SimpleKey)), e.2.required = false ∧ e.2.place.line ≤ c.line := by
    rintro e ⟨⟩
  have := @Waiting.intro d allow' levels c allow allow' [] [] q hblanks hnone (by rintro i ⟨⟩) hsize hbare
    fun _ => ⟨rfl, by rintro e ⟨⟩, by rintro i ⟨⟩⟩
  simpa using this

theorem isBare_replicate {kind : TokenKind} {m : Mark} :
    ∀ t ∈ List.replicate n (Token.atMark kind m), t.IsBare := by
  intro t ht
  rw [List.eq_of_mem_replicate ht]
  exact isBare_atMark kind m

/-- The next token is on the line of the cursor. -/
theorem Stands.awaits_here (h : Stands l c allow levels ks) (hpass : c.Passes (List.replicate n ' ') d)
    (hopens : Opens d.rest) : Awaits l d allow levels ks := by
  obtain ⟨q, rfl, hbare, hleads⟩ := h
  have hsize := hpass.size_eq
  exact awaits_of_blanks hleads (blanksAhead_here hpass hopens) (by omega) hbare

/-- The next token is on the next line. -/
theorem Stands.awaits_line (h : Stands l c allow levels ks)
    (hpass : c.Passes (List.replicate n ' ' ++ '\n' :: List.replicate k ' ') d) (hopens : Opens d.rest) :
    Awaits l d true levels ks := by
  obtain ⟨q, rfl, hbare, hleads⟩ := h
  have hsize := hpass.size_eq
  exact awaits_of_blanks hleads (blanksAhead_line hpass hopens) (by omega) hbare

/-- Nothing but blanks stands behind the indicator. -/
theorem Stands.awaits_behind (h : Stands l c allow levels ks)
    (hpass : c.Passes (List.replicate n ' ') e) (hbehind : Behind k e d) :
    Awaits l d true levels ks := by
  cases hbehind with
  | stop hrest =>
    have hopens : Opens d.rest := by
      rw [hrest]
      rintro ch ⟨⟩
    obtain ⟨l', hwaiting, hleads⟩ := h.awaits_here hpass hopens
    refine ⟨l', ?_, hleads⟩
    cases hwaiting with
    | intro hblanks hpast hlevel hsize hbare hnext =>
      exact .intro hblanks hpast hlevel hsize hbare fun hne => absurd hrest hne
  | line hline _ hopens _ => exact h.awaits_line (hpass.trans hline) hopens

/-- A token is read where it is awaited. -/
theorem Awaits.exists_step (h : Awaits l d allow (b :: levels) ks) (hd : d.rest ≠ []) (hb : b ≤ d.column) :
    ∃ q, q.map (·.kind) = ks ∧ (∀ t ∈ q, t.IsBare) ∧ ∀ l', (block d allow [] (b :: levels) q).dispatch = .ok l' →
      l'.cursor.size + (!l'.done).toNat ≤ d.size → q.Sublist l'.queue → q.length < l'.queue.length →
        l'.queue.length + l'.indents.length ≤ q.length + levels.length + 4 → Leads l l' := by
  obtain ⟨_, hwaiting, hleads⟩ := h
  cases hwaiting with
  | @intro c a allow' keys opened q hblanks hpast _ hsize hbare hnext =>
    obtain ⟨rfl, hstale, hopened⟩ := hnext hd
    have hkept : keys.filter (fun e => !isStale d e.2) = [] :=
      List.filter_eq_nil_iff.mpr fun e he => by simp [hstale e he]
    refine ⟨q ++ List.replicate opened.length (Token.atMark .blockEnd d.mark), ?_, ?_,
      fun l' hdispatch hsize' hsublist hlength hgrow => hleads.step ?_⟩
    · rw [List.map_append, List.map_replicate]
      rfl
    · exact List.forall_mem_append.mpr ⟨hbare, isBare_replicate⟩
    · rw [List.length_append, List.length_replicate] at hlength hgrow
      exact step_block hblanks (fun e he => (hpast e he).2) (fun e he _ => (hpast e he).1) hkept hopened
        hb hdispatch (Nat.le_trans hsize' hsize) hsublist hlength hgrow

/-- An indicator is read where it is awaited. -/
theorem Awaits.stands {kind : TokenKind} {ch : Char} {allow' : Bool} (h : Awaits l d allow (b :: levels) ks)
    (hrest : d.rest = ch :: r) (hb : b ≤ d.column)
    (hdispatch : ∀ q, (block d allow [] (b :: levels) q).dispatch =
      .ok (block d.next allow' [] levels' (q ++ marks opening d.mark ++ [indicator kind d])))
    (hgrow : opening.length + levels'.tail.length ≤ levels.length + 2) :
    Stands l d.next allow' levels' (ks ++ opening ++ [kind]) := by
  obtain ⟨q, rfl, hbare, hstep⟩ := h.exists_step (by rw [hrest]; exact List.cons_ne_nil _ _) hb
  have hsize := (Passes.single hrest).size_eq
  refine ⟨_, ?_, ?_, hstep _ (hdispatch q) ?_ ?_ ?_ ?_⟩
  · simp [indicator]
  · exact List.forall_mem_append.mpr ⟨List.forall_mem_append.mpr ⟨hbare, isBare_marks⟩,
      List.forall_mem_singleton.mpr (isBare_indicator _ _)⟩
  · simp only [List.length_cons, List.length_nil] at hsize
    show d.next.size + 1 ≤ d.size
    omega
  · rw [List.append_assoc]
    exact List.sublist_append_left _ _
  · simp only [block, List.length_append, length_marks, List.length_cons, List.length_nil]
    omega
  · simp only [block, List.length_append, length_marks, List.length_cons, List.length_nil]
    omega

theorem Enters.grow {start : TokenKind} {m : Nat} (h : Enters start m (b :: levels) levels' opening) :
    b ≤ m ∧ opening.length + levels'.tail.length ≤ levels.length + 2 := by
  cases h with
  | deeper hb => exact ⟨Int.le_of_lt hb, by simp only [List.length_cons, List.length_nil, List.tail_cons]; omega⟩
  | level => exact ⟨Int.le_refl _, by simp only [List.length_nil, List.tail_cons]; omega⟩

/-- A dash. -/
theorem Awaits.item (h : Awaits l d true (b :: levels) ks) (hrest : d.rest = '-' :: r)
    (hr : endsWord (r.headD endOfText) = true) (hcolumn : 0 < d.column)
    (henters : Enters .blockSequenceStart d.column (b :: levels) levels' opening) :
    Stands l d.next true levels' (ks ++ opening ++ [.blockEntry]) :=
  h.stands hrest henters.grow.1
    (fun _ => (dispatch_dash hrest hr hcolumn).trans (fetchBlockEntry_block henters)) henters.grow.2

/-- A question mark before a key. -/
theorem Awaits.explicitKey (h : Awaits l d true (b :: levels) ks) (hrest : d.rest = '?' :: r)
    (hr : endsWord (r.headD endOfText) = true)
    (henters : Enters .blockMappingStart d.column (b :: levels) levels' opening) :
    Stands l d.next true levels' (ks ++ opening ++ [.key]) :=
  h.stands hrest henters.grow.1 (fun _ => (dispatch_question hrest hr).trans (fetchKey_block henters))
    henters.grow.2

/-- A colon at the start of a line. -/
theorem Awaits.explicitValue (h : Awaits l d true ((d.column : Int) :: levels) ks)
    (hrest : d.rest = ':' :: r) (hr : endsWord (r.headD endOfText) = true) :
    Stands l d.next true (d.column :: levels) (ks ++ [.value]) := by
  have henters : Enters .blockMappingStart d.column (d.column :: levels) (d.column :: levels) [] := .level
  have := h.stands hrest henters.grow.1
    (fun _ => (dispatch_colon hrest hr).trans (fetchValue_block henters)) henters.grow.2
  rwa [List.append_nil] at this

/-! ### Scalars -/

variable {keys : List (Nat × SimpleKey)} {q : List Token}

theorem awaits_of_read {a : Bool} (hleads : Leads l (block c a keys levels q))
    (hkeys : ∀ k ∈ keys, k.2.required = false ∧ k.2.place.line ≤ e.line) (hbehind : Behind n e d)
    (hc : c = e ∨ c = d ∧ a = true) (hbare : ∀ t ∈ q, t.IsBare) : Awaits l d true levels (q.map (·.kind)) := by
  have hlevel : ∀ i ∈ ([] : List Int), -1 < i := by rintro i ⟨⟩
  have hstale : d.rest ≠ [] → ∀ k ∈ keys, isStale d k.2 = true := by
    intro hd k hk
    have hline := hbehind.line_lt hd
    have := (hkeys k hk).2
    rw [isStale, Bool.or_eq_true, bne_iff_ne]
    exact .inl (by omega)
  suffices h : ∃ allow', (block c a keys levels q).blanksAhead = (none, allow', d) ∧
      (∀ k ∈ keys, k.2.required = false ∧ k.2.place.line ≤ c.line) ∧ d.size ≤ c.size ∧
        (d.rest ≠ [] → allow' = true) by
    obtain ⟨allow', hblanks, hpast, hsize, hallow⟩ := h
    have := @Waiting.intro d true levels c a allow' keys [] q hblanks hpast hlevel hsize
      hbare fun hd => ⟨hallow hd, hstale hd, by rintro i ⟨⟩⟩
    exact ⟨_, by simpa using this, hleads⟩
  rcases hc with rfl | ⟨rfl, rfl⟩
  · cases hbehind with
    | stop hrest =>
      have hopens : Opens c.rest := by
        rw [hrest]
        rintro ch ⟨⟩
      exact ⟨a, blanksAhead_here (n := 0) (.nil c) hopens, hkeys, Nat.le_refl _, fun hd => absurd hrest hd⟩
    | line hline hk hopens hsep =>
      exact ⟨true, blanksAhead_line (j := 0) hline hopens, hkeys,
        (Behind.line hline hk hopens hsep).size_le, fun _ => rfl⟩
  · exact ⟨true, blanksAhead_here (n := 0) (.nil c) hbehind.opens,
      fun k hk => ⟨(hkeys k hk).1, Nat.le_trans (hkeys k hk).2 hbehind.line_le⟩, Nat.le_refl _, fun _ => rfl⟩

theorem keysHere_spec (hb : b < d.column) :
    ∀ k ∈ keysHere allow d (b :: levels) q, k.2.required = false ∧ k.2.place.line ≤ d.line := by
  intro k hk
  cases allow with
  | false => cases hk
  | true =>
    obtain rfl : k = (0, keyHere d (b :: levels) q) := List.mem_singleton.mp hk
    refine ⟨?_, Nat.le_refl _⟩
    show (b == (d.column : Int)) = false
    rw [beq_eq_false_iff_ne]
    omega

variable {least : Nat} {t : List Char} {style : Style}

/-- A scalar that is no key. -/
theorem Awaits.scalar (h : Awaits l d allow (b :: levels) ks) (hform : ScalarForm least t style w)
    (hpass : d.Passes w c) (hb : b < d.column) (hleast : b < least) (hpos : 0 < least)
    (hbehind : Behind n c e) (hn : n < (b + 1).toNat) :
    Awaits l e true (b :: levels) (ks ++ [.scalar (String.ofList t) style]) := by
  have hlength := hform.length_pos
  have hsize := hpass.size_eq
  have hd : d.rest ≠ [] := by
    rw [hpass.rest_eq]
    exact List.append_ne_nil_of_left_ne_nil (List.ne_nil_of_length_pos hlength) _
  obtain ⟨q, rfl, hbare, hstep⟩ := h.exists_step hd (Int.le_of_lt hb)
  obtain ⟨broke, htrails, hbroke⟩ := hbehind.trails hn
  obtain ⟨token, a, m, hdispatch, hkind, htoken, hcases⟩ := dispatch_scalar allow
    (b :: levels) q hform hpass hleast hpos (Int.le_of_lt hb) htrails
  have hm : m = c ∨ m = e ∧ a = true := by
    rcases hcases with ⟨rfl, rfl⟩ | ⟨rfl, _⟩
    · cases a with
      | false => exact .inl (hbroke rfl)
      | true => exact .inr ⟨rfl, rfl⟩
    · exact .inl rfl
  have hmsize : m.size ≤ c.size := by
    rcases hm with rfl | ⟨rfl, _⟩
    · exact Nat.le_refl _
    · exact hbehind.size_le
  have hleads := hstep _ hdispatch (by show m.size + 1 ≤ d.size; omega)
    (List.sublist_append_left _ _) (by simp [block]) (by simp [block]; omega)
  have hawaits := awaits_of_read hleads (fun k hk => ⟨(keysHere_spec hb k hk).1,
    Nat.le_trans (keysHere_spec hb k hk).2 hpass.line_le⟩) hbehind hm
    (List.forall_mem_append.mpr ⟨hbare, List.forall_mem_singleton.mpr htoken⟩)
  rwa [List.map_append, List.map_singleton, hkind] at hawaits

/-- A key, with the colon behind it. -/
theorem Awaits.key (h : Awaits l d true (b :: levels) ks) (hform : ScalarForm least t style w)
    (hfeed : '\n' ∉ w) (hlength : w.length ≤ 1024) (hpass : d.Passes w e) (hrest : e.rest = ':' :: r)
    (hr : endsWord (r.headD endOfText) = true) (hleast : b < least) (hpos : 0 < least)
    (henters : Enters .blockMappingStart d.column (b :: levels) levels' opening) :
    Stands l e.next false levels'
      (ks ++ opening ++ [.key, .scalar (String.ofList t) style, .value]) := by
  have hw := hform.length_pos
  have hsize := hpass.size_eq
  have hnext := (Passes.single hrest).size_eq
  rw [List.length_singleton] at hnext
  obtain ⟨hline, hcolumn⟩ := hpass.same_line hfeed hform.return_notMem
  obtain ⟨hb, hgrow⟩ := henters.grow
  have hd : d.rest ≠ [] := by
    rw [hpass.rest_eq]
    exact List.append_ne_nil_of_left_ne_nil (List.ne_nil_of_length_pos hw) _
  obtain ⟨q, rfl, hbare, hstep⟩ := h.exists_step hd hb
  obtain ⟨token, a, m, hdispatch, hkind, htoken, hcases⟩ := dispatch_scalar true
    (b :: levels) q hform hpass hleast hpos hb (Trails.colon hrest hr)
  obtain ⟨rfl, rfl⟩ : m = e ∧ a = false := by
    rcases hcases with hcase | hcase <;> exact hcase
  have hleads := hstep _ hdispatch (by show m.size + 1 ≤ d.size; omega)
    (List.sublist_append_left _ _) (by simp [block]) (by simp [block]; omega)
  have hfresh : isStale m (keyHere d (b :: levels) q) = false := by
    have hindex := hpass.index_eq
    have hplace : (keyHere d (b :: levels) q).place.line = d.line := rfl
    have hstart : (keyHere d (b :: levels) q).index = d.index := rfl
    rw [isStale, hplace, hstart, hline, bne_self_eq_false, Bool.false_or, decide_eq_false_iff_not]
    omega
  have hopens : Opens m.rest := by
    rw [hrest]
    intro ch hch
    obtain rfl : ':' = ch := Option.some.inj hch
    decide
  have hblanks : (block m false (keysHere true d (b :: levels) q) ([] ++ b :: levels)
      (q ++ [token])).blanksAhead = (none, false, m) := blanksAhead_here (n := 0) (.nil m) hopens
  have hvalue := (dispatch_colon hrest hr).trans (fetchValue_keyed m token q henters)
  refine ⟨q ++ marks opening d.mark ++ [Token.atMark .key d.mark, token, indicator .value m], ?_, ?_,
    hleads.step (step_block hblanks ?_ ?_ (?_ : _ = [(0, keyHere d (b :: levels) q)]) ?_ ?_ ?_ ?_ ?_ ?_ ?_)⟩
  · simp [hkind, indicator, Token.atMark]
  · simp only [List.forall_mem_append, List.forall_mem_cons]
    exact ⟨⟨hbare, isBare_marks⟩, isBare_atMark _ _, htoken, isBare_indicator _ _, by rintro t ⟨⟩⟩
  · intro k hk
    obtain rfl := List.mem_singleton.mp hk
    exact Nat.le_of_eq hline.symm
  · intro k hk hstale
    obtain rfl := List.mem_singleton.mp hk
    rw [hfresh] at hstale
    cases hstale
  · simp [keysHere, hfresh]
  · rintro i ⟨⟩
  · omega
  · rw [List.length_nil, List.replicate_zero, List.append_nil]
    exact hvalue
  · show m.next.size + 1 ≤ m.size
    omega
  · simp [block]
  · simp [block]
  · simp only [block, List.length_append, length_marks, List.length_cons, List.length_nil]
    omega

/-! ### Empty collections -/

/-- The state behind the mark that starts an empty collection. -/
def flowing (sequence : Bool) (l : Lexer) : Lexer := { l with flow := [sequence], allowKey := true }

theorem dispatch_flowStart {sequence : Bool} (h : d.rest = flowMarks sequence ++ r) :
    (block d allow [] levels q).dispatch =
      .ok (flowing sequence
        (block d.next allow (keysHere allow d levels q) levels (q ++ [indicator (flowStart sequence) d]))) := by
  have hstart : (block d allow [] levels q).dispatch =
      (block d allow [] levels q).fetchFlowStart sequence := by
    cases sequence with
    | true =>
      have hpeek : d.peek = '[' := peek_of_rest h
      have hrest : d.rest = '[' :: ']' :: r := h
      simp [dispatch, block, hpeek, hrest]
    | false =>
      have hpeek : d.peek = '\x7b' := peek_of_rest h
      have hrest : d.rest = '\x7b' :: '\x7d' :: r := h
      simp [dispatch, block, hpeek, hrest]
  rw [hstart, fetchFlowStart, saveKey_block]
  cases sequence <;> rfl

theorem fetch_flowEnd {sequence : Bool} (allow : Bool) (levels : List Int) (q : List Token)
    (h : d.rest = flowMarks sequence ++ r)
    (hkeys : ∀ k ∈ keys, k.1 = 0 ∧ isStale d.next k.2 = false) :
    (flowing sequence (block d.next allow keys levels q)).blanksAhead.1 = none ∧
      (flowing sequence (block d.next allow keys levels q)).fetch =
        .ok (block d.next.next false keys levels (q ++ [indicator (flowEnd sequence) d.next])) := by
  have hrest : d.next.rest = (flowMarks sequence).tail ++ r := by
    cases sequence <;> exact rest_next h
  have hopens : Opens d.next.rest := by
    rw [hrest]
    intro ch hch
    cases sequence <;> obtain rfl := Option.some.inj hch <;> decide
  have hblanks : (flowing sequence (block d.next allow keys levels q)).blanksAhead =
      (none, true, d.next) := by
    have hmark : (d.next.peek == byteOrderMark) = false := by
      cases sequence <;> rw [peek_of_rest hrest] <;> decide
    unfold blanksAhead flowing block
    dsimp only
    rw [hmark, Bool.and_false, if_neg (by decide)]
    exact blanks_here (n := 0) (.nil _) hopens
  have hpast : (flowing sequence (block d.next allow keys levels q)).pastBlanks =
      flowing sequence (block d.next allow keys levels q) := by
    unfold pastBlanks
    rw [hblanks]
    rfl
  have hdrop : (flowing sequence (block d.next allow keys levels q)).dropStaleKeys =
      .ok (flowing sequence (block d.next allow keys levels q)) := by
    refine dropStaleKeys_eq_ok_iff.mpr ⟨fun k hk hstale => ?_, ?_⟩
    · exact absurd ((hkeys k hk).2.symm.trans hstale) (by decide)
    · have hall : keys.filter (fun k => !isStale d.next k.2) = keys :=
        List.filter_eq_self.mpr fun k hk => by rw [(hkeys k hk).2]; rfl
      show _ = flowing sequence (block d.next allow (keys.filter fun k => !isStale d.next k.2) levels q)
      rw [hall]
  have hend : (flowing sequence (block d.next allow keys levels q)).dispatch =
      (flowing sequence (block d.next allow keys levels q)).fetchFlowEnd (flowEnd sequence) := by
    cases sequence with
    | true =>
      have hpeek : d.next.peek = ']' := peek_of_rest hrest
      have hrest : d.next.rest = ']' :: r := hrest
      simp [dispatch, flowing, block, hpeek, hrest, flowEnd]
    | false =>
      have hpeek : d.next.peek = '\x7d' := peek_of_rest hrest
      have hrest : d.next.rest = '\x7d' :: r := hrest
      simp [dispatch, flowing, block, hpeek, hrest, flowEnd]
  have hnone : keys.lookup 1 = none := by
    rw [List.lookup_eq_none_iff]
    intro k hk
    rw [(hkeys k hk).1]
    rfl
  have hkept : (flowing sequence (block d.next allow keys levels q)).dropKey =
      .ok (flowing sequence (block d.next allow keys levels q)) :=
    dropKey_of_lookup_none hnone
  refine ⟨by rw [hblanks], ?_⟩
  rw [fetch_eq, hblanks, hpast]
  refine (congrArg (· >>= _) hdrop).trans (hend.trans ?_)
  rw [fetchFlowEnd, hkept]
  rfl

/-- An empty sequence or mapping. -/
theorem Awaits.flow {sequence : Bool} (h : Awaits l d allow (b :: levels) ks)
    (hpass : d.Passes (flowMarks sequence) c) (hb : b < d.column) (hbehind : Behind n c e) :
    Awaits l e true (b :: levels) (ks ++ [flowStart sequence, flowEnd sequence]) := by
  have hrest := hpass.rest_eq
  have hd : d.rest ≠ [] := by
    rw [hrest]
    cases sequence <;> exact List.cons_ne_nil _ _
  obtain ⟨q, rfl, hbare, hstep⟩ := h.exists_step hd (Int.le_of_lt hb)
  have hc : c = d.next.next := by
    rw [hpass.eq_advance]
    cases sequence <;> rfl
  have hsize := hpass.size_eq
  have hsize' : d.size = d.next.size + 1 := by
    cases sequence <;> exact (Passes.single hrest).size_eq
  have hprinted : d.next.line = d.line ∧ d.next.index = d.index + 1 := by
    cases sequence <;>
      exact ⟨(next_of_isPrinted hrest (by decide)).1, (Passes.single hrest).index_eq⟩
  have hleads := hstep _ (dispatch_flowStart hrest) (by show d.next.size + 1 ≤ d.size; omega)
    (List.sublist_append_left _ _) (by simp [flowing, block]) (by simp [flowing, block]; omega)
  have hkeys : ∀ k ∈ keysHere allow d (b :: levels) q, k.1 = 0 ∧ isStale d.next k.2 = false := by
    intro k hk
    cases allow with
    | false => cases hk
    | true =>
      obtain rfl := List.mem_singleton.mp hk
      refine ⟨rfl, ?_⟩
      simp [isStale, keyHere, Cursor.mark, hprinted.1, hprinted.2]
  obtain ⟨hblanks, hfetch⟩ := fetch_flowEnd allow (b :: levels)
    (q ++ [indicator (flowStart sequence) d]) hrest hkeys
  have hnext : d.next.size = d.next.next.size + 1 := by
    rw [← hc]
    cases sequence <;> exact Nat.succ.inj (hsize'.symm.trans hsize)
  have hlast : Step (flowing sequence (block d.next allow (keysHere allow d (b :: levels) q) (b :: levels)
      (q ++ [indicator (flowStart sequence) d])))
      (block d.next.next false (keysHere allow d (b :: levels) q) (b :: levels)
        (q ++ [indicator (flowStart sequence) d] ++ [indicator (flowEnd sequence) d.next])) := by
    refine ⟨rfl, hfetch, hblanks, fun k hk => ?_, fun _ => ?_, ?_, List.sublist_append_left _ _, ?_⟩
    · exact Nat.le_trans (keysHere_spec hb k hk).2 (line_le_next d)
    · show d.next.next.size < d.next.size
      omega
    · simp only [potential, flowing, block, List.length_append, List.length_cons, List.length_nil]
      omega
    · simp [flowing, block]
  have hawaits := awaits_of_read (hleads.step hlast) (fun k hk => ⟨(keysHere_spec hb k hk).1,
    Nat.le_trans (keysHere_spec hb k hk).2 hpass.line_le⟩) hbehind (.inl hc.symm) (by
      simp only [List.forall_mem_append, List.forall_mem_singleton]
      exact ⟨⟨hbare, isBare_indicator _ _⟩, isBare_indicator _ _⟩)
  simpa [indicator] using hawaits

/-! ### The end -/

/-- The blocks that are indented more than a column, and those that are not. -/
theorem exists_closed (column : Nat) {opened : List Int} (hopened : ∀ i ∈ opened, -1 < i) :
    ∃ (closed left : List Int) (b : Int) (levels : List Int), closed ++ left = opened ∧
      left ++ [-1] = b :: levels ∧ (∀ i ∈ closed, (column : Int) < i) ∧ b ≤ column ∧
        ∀ i ∈ left, -1 < i := by
  induction opened with
  | nil => exact ⟨[], [], -1, [], rfl, rfl, by rintro i ⟨⟩, by omega, by rintro i ⟨⟩⟩
  | cons i opened ih =>
    by_cases hi : (column : Int) < i
    · obtain ⟨closed, left, b, levels, rfl, hlevels, hclosed, hb, hleft⟩ :=
        ih fun k hk => hopened k (List.mem_cons_of_mem _ hk)
      refine ⟨i :: closed, left, b, levels, rfl, hlevels, fun k hk => ?_, hb, hleft⟩
      rcases List.mem_cons.mp hk with rfl | hk
      · exact hi
      · exact hclosed k hk
    · exact ⟨[], i :: opened, i, opened ++ [-1], rfl, rfl, by rintro k ⟨⟩, by omega, hopened⟩

/-- The state when everything has been read. -/
def finished (c : Cursor) (q : List Token) : Lexer :=
  { block c false [] [-1] (q ++ [Token.atMark .streamEnd c.mark]) with done := true }

/-- Between blocks a key is dropped without a fault if no key has to start there. -/
theorem dropKey_block (allow : Bool) (levels : List Int) (q : List Token)
    (hkeys : ∀ k ∈ keys, k.2.required = false) :
    (block d allow keys levels q).dropKey =
      .ok (block d allow (keys.filter (·.1 != 0)) levels q) := by
  refine dropKey_eq_ok_iff.mpr ⟨fun k hlookup => ?_, rfl⟩
  obtain ⟨before, after, heq, _⟩ := List.lookup_eq_some_iff.mp hlookup
  have heq : keys = before ++ (0, k) :: after := heq
  exact hkeys (0, k) (by rw [heq]; exact List.mem_append_right _ List.mem_cons_self)

theorem dispatch_end {left : List Int} (allow : Bool) (q : List Token) (hrest : d.rest = [])
    (keys : List (Nat × SimpleKey)) (hkeys : ∀ k ∈ keys, k.2.required = false)
    (hleft : ∀ i ∈ left, -1 < i) :
    (block d allow keys (left ++ [-1]) q).dispatch =
      .ok (finished d (q ++ List.replicate left.length (Token.atMark .blockEnd d.mark))) := by
  have hend : (block d allow keys (left ++ [-1]) q).dispatch =
      (block d allow keys (left ++ [-1]) q).fetchStreamEnd := by
    simp [dispatch, block, hrest]
  have hunwind : (block d allow keys (left ++ [-1]) q).unwind (-1) = block d allow keys [-1]
      (q ++ List.replicate left.length (Token.atMark .blockEnd d.mark)) :=
    unwindTo_block hleft (Int.le_refl _)
  rw [hend, fetchStreamEnd_eq, hunwind, dropKey_block _ _ _ hkeys]
  rfl

/-- At the end of the text, reading is finished. -/
theorem Awaits.finish (h : Awaits l d allow [-1] ks) (hrest : d.rest = []) :
    ∃ ts m, Reads l (ts ++ [Token.atMark .streamEnd m]) ∧ ts.map (·.kind) = ks ∧
      ∀ t ∈ ts, t.IsBare := by
  obtain ⟨_, hwaiting, hleads⟩ := h
  cases hwaiting with
  | @intro c a allow' keys opened q hblanks hpast hlevel hsize hbare _ =>
    obtain ⟨closed, left, b, levels, rfl, hlevels, hclosed, hb, hleft⟩ := exists_closed d.column hlevel
    have hopened : closed ++ left ++ [-1] = closed ++ b :: levels := by rw [List.append_assoc, hlevels]
    rw [hopened] at hblanks hleads
    refine ⟨q ++ List.replicate (closed ++ left).length (Token.atMark .blockEnd d.mark),
      d.mark, ?_, by simp [Token.atMark], List.forall_mem_append.mpr ⟨hbare, isBare_replicate⟩⟩
    have hdispatch := dispatch_end allow' (q ++ List.replicate closed.length
      (Token.atMark .blockEnd d.mark)) hrest (keys.filter fun k => !isStale d k.2)
      (fun k hk => (hpast k (List.mem_of_mem_filter hk)).1) hleft
    rw [hlevels] at hdispatch
    have hqueue : q ++ List.replicate (closed ++ left).length (Token.atMark .blockEnd d.mark) =
        q ++ List.replicate closed.length (Token.atMark .blockEnd d.mark) ++
          List.replicate left.length (Token.atMark .blockEnd d.mark) := by
      rw [List.length_append, List.append_assoc, List.replicate_append_replicate]
    rw [hqueue]
    refine hleads _ (.step (step_block hblanks (fun k hk => (hpast k hk).2)
      (fun k hk _ => (hpast k hk).1) rfl hclosed hb hdispatch ?_ ?_ ?_ ?_) (.finished rfl rfl))
    · exact hsize
    · exact (List.sublist_append_left _ _).trans (List.sublist_append_left _ _)
    · simp only [finished, block, List.length_append, List.length_replicate, List.length_singleton]
      omega
    · have hlength := congrArg List.length hlevels
      simp only [List.length_append, List.length_cons, List.length_nil] at hlength
      simp only [finished, block, List.length_append, List.length_replicate, List.length_cons, List.length_nil, List.tail_cons]
      omega

/-! ### Parts of a layout -/

/-- A block ends where the next token is further to the left. -/
theorem Awaits.close {m : Nat} (h : Awaits l d allow ((m : Int) :: levels) ks)
    (hm : d.rest ≠ [] → d.column < m) : Awaits l d allow levels (ks ++ [.blockEnd]) := by
  obtain ⟨_, hwaiting, hleads⟩ := h
  cases hwaiting with
  | @intro c a allow' keys opened q hblanks hpast hlevel hsize hbare hnext =>
    have hopened : opened ++ (m : Int) :: levels = (opened ++ [(m : Int)]) ++ levels := by simp
    rw [hopened] at hblanks hleads
    refine ⟨_, ?_, hleads⟩
    have := Waiting.intro hblanks hpast (fun i hi => ?_) hsize hbare fun hd => ⟨(hnext hd).1, (hnext hd).2.1,
      fun i hi => ?_⟩
    · rwa [List.length_append, List.length_singleton, List.replicate_succ', ← List.append_assoc] at this
    · rcases List.mem_append.mp hi with hi | hi
      · exact hlevel i hi
      · rw [List.mem_singleton.mp hi]
        omega
    · rcases List.mem_append.mp hi with hi | hi
      · exact (hnext hd).2.2 i hi
      · rw [List.mem_singleton.mp hi]
        exact Int.ofNat_lt.mpr (hm hd)

/-- The place of the first line of a collection. -/
theorem Stands.awaits_lead {m : Nat} {here : Option Nat} (h : Stands l c allow levels ks)
    (hlead : Lead m here w) (hhere : ∀ column ∈ here, allow = true ∧ c.column = column)
    (hpass : c.Passes w d) (hopens : Opens d.rest) : Awaits l d true levels ks ∧ d.column = m := by
  cases hlead with
  | here hm =>
    obtain ⟨rfl, rfl⟩ := hhere _ rfl
    refine ⟨h.awaits_here hpass hopens, ?_⟩
    rw [(hpass.of_isPrinted isPrinted_of_mem_spaces).2, List.length_replicate]
    omega
  | below =>
    refine ⟨h.awaits_line (n := 0) hpass hopens, ?_⟩
    rw [hpass.column_of_lineFeed isPrinted_of_mem_spaces, List.length_replicate]

/-- The place of a scalar. -/
theorem Stands.awaits_gap {m : Nat} (h : Stands l c allow levels ks) (hgap : Gap (m + 1) w)
    (hpass : c.Passes w d) (hopens : Opens d.rest) (hm : m < c.column) :
    ∃ allow', Awaits l d allow' levels ks ∧ m < d.column := by
  cases hgap with
  | here n =>
    refine ⟨allow, h.awaits_here hpass hopens, ?_⟩
    rw [(hpass.of_isPrinted isPrinted_of_mem_spaces).2]
    omega
  | @below n k hk =>
    obtain ⟨e, _, hline⟩ := hpass.split
    refine ⟨true, h.awaits_line hpass hopens, ?_⟩
    rw [hline.column_of_lineFeed isPrinted_of_mem_spaces, List.length_replicate]
    omega

end BusinessModel.Yaml.Lexer

namespace BusinessModel.Yaml

open Cursor Lexer

variable {c d : Cursor} {ts : List TokenKind} {w : List Char} {m : Nat} {sequence : Bool}

/-- The next line of a collection. -/
theorem LinesForm.behind {x : List Char} (h : LinesForm sequence m ts w) (hm : sequence = true → 0 < m)
    (hpass : c.Passes ('\n' :: List.replicate m ' ') d) (hrest : d.rest = w ++ x) : Behind m c d := by
  refine .line hpass (Nat.le_refl _) (hrest ▸ h.opens) ?_
  cases m with
  | zero =>
    cases sequence with
    | true => exact absurd (hm rfl) (Nat.lt_irrefl 0)
    | false =>
      have hnext : d = c.next := hpass.eq_advance
      obtain ⟨us, v, y, hline, rfl⟩ := h.exists_line
      rw [List.append_assoc] at hrest
      exact hnext ▸ hline.not_atSeparatorLine hrest
  | succ m => exact atSeparatorLine_of_head hpass.uncons.rest_eq (by decide) (by decide)

/-- The colon behind a key of its own. -/
theorem behind_colon {x : List Char} (hpass : c.Passes ('\n' :: List.replicate m ' ') d)
    (hrest : d.rest = ':' :: x) : Behind m c d := by
  refine .line hpass (Nat.le_refl _) ?_ ?_
  · rw [hrest]
    intro ch hch
    obtain rfl : ':' = ch := Option.some.inj hch
    decide
  · cases m with
    | zero =>
      have hnext : d = c.next := hpass.eq_advance
      exact hnext ▸ atSeparatorLine_of_head hrest (by decide) (by decide)
    | succ m => exact atSeparatorLine_of_head hpass.uncons.rest_eq (by decide) (by decide)

/-- Reading through a node gives its tokens. -/
def NodeReads (l : Lexer) (b : Nat) (here : Option Nat) (ts : List TokenKind) (w : List Char) : Prop :=
  ∀ {c d e : Cursor} {allow : Bool} {levels : List Int} {ks : List TokenKind},
    Stands l c allow (b :: levels) ks → b < c.column →
      (∀ column ∈ here, allow = true ∧ c.column = column) → c.Passes w d → Behind b d e →
        Awaits l e true (b :: levels) (ks ++ ts)

/-- Reading through lines of a collection at a column gives their tokens. -/
def LinesRead (l : Lexer) (sequence : Bool) (m : Nat) (ts : List TokenKind) (w : List Char) : Prop :=
  ∀ {c d e : Cursor} {b : Int} {levels levels' : List Int} {ks opening : List TokenKind},
    Awaits l c true (b :: levels) ks → c.column = m →
      Enters (blockStart sequence) m (b :: levels) (m :: levels') opening →
        (sequence = true → 0 < m) → c.Passes w d → Behind m d e →
          Awaits l e true (m :: levels') (ks ++ opening ++ ts)

variable {l : Lexer} {b : Nat} {here : Option Nat} {ts' : List TokenKind} {w' : List Char}

theorem nodeReads_empty {n : Nat} : NodeReads l b here [] (List.replicate n ' ') := by
  intro c d e allow levels ks hstands _ _ hpass hbehind
  rw [List.append_nil]
  exact hstands.awaits_behind hpass hbehind

theorem nodeReads_scalar {t g : List Char} {style : Style} (hgap : Gap (b + 1) g)
    (hform : ScalarForm (b + 1) t style w) :
    NodeReads l b here [.scalar (String.ofList t) style] (g ++ w) := by
  intro c d e allow levels ks hstands hcolumn _ hpass hbehind
  obtain ⟨c', hblanks, hpass⟩ := hpass.split
  obtain ⟨broke, htrails, _⟩ := hbehind.trails (Nat.lt_succ_self b)
  have hopens : Opens c'.rest := hpass.rest_eq ▸ (hform.opens htrails.head).1
  obtain ⟨allow', hawaits, hc'⟩ := hstands.awaits_gap hgap hblanks hopens hcolumn
  exact hawaits.scalar hform hpass (by omega) (by omega) (by omega) hbehind (by omega)

theorem nodeReads_flow {n : Nat} : NodeReads l b here [flowStart sequence, flowEnd sequence]
    (List.replicate (n + 1) ' ' ++ flowMarks sequence) := by
  intro c d e allow levels ks hstands hcolumn _ hpass hbehind
  obtain ⟨c', hblanks, hpass⟩ := hpass.split
  have hopens : Opens c'.rest := hpass.rest_eq ▸ opens_of_flow
  have hc' := (hblanks.of_isPrinted isPrinted_of_mem_spaces).2
  exact (hstands.awaits_here hblanks hopens).flow hpass (by omega) hbehind

theorem nodeReads_block {g : List Char} (hm : b < m) (hlead : Lead m here g)
    (hlines : LinesForm sequence m ts w) (hread : LinesRead l sequence m ts w) :
    NodeReads l b here (blockStart sequence :: ts ++ [.blockEnd]) (g ++ w) := by
  intro c d e allow levels ks hstands _ hhere hpass hbehind
  obtain ⟨c', hblanks, hpass⟩ := hpass.split
  obtain ⟨hawaits, hc'⟩ := hstands.awaits_lead hlead hhere hblanks (hpass.rest_eq ▸ hlines.opens)
  have hlast := hread hawaits hc' (.deeper (Int.ofNat_lt.mpr hm)) (fun _ => Nat.zero_lt_of_lt hm) hpass
    (hbehind.mono (Nat.le_of_lt hm))
  have hclosed := hlast.close fun hd => Nat.lt_of_le_of_lt (hbehind.column_le hd) hm
  simpa using hclosed

theorem linesRead_cons (hlines : LinesForm sequence m ts' w') (hline : LinesRead l sequence m ts w)
    (hrest : LinesRead l sequence m ts' w') :
    LinesRead l sequence m (ts ++ ts') (w ++ ('\n' :: List.replicate m ' ' ++ w')) := by
  intro c d e b levels levels' ks opening hawaits hcolumn henters hm hpass hbehind
  obtain ⟨d', hpass, hpass'⟩ := hpass.split
  obtain ⟨c', hfeed, hpass'⟩ := hpass'.split
  have hc' : c'.column = m := by
    rw [hfeed.column_of_lineFeed isPrinted_of_mem_spaces, List.length_replicate]
  have hfirst := hline hawaits hcolumn henters hm hpass (hlines.behind hm hfeed hpass'.rest_eq)
  have hlast := hrest hfirst hc' .level hm hpass' hbehind
  simpa using hlast

theorem linesRead_item (hnode : NodeForm m (some (m + 1)) ts w)
    (hread : NodeReads l m (some (m + 1)) ts w) : LinesRead l true m (.blockEntry :: ts) ('-' :: w) := by
  intro c d e b levels levels' ks opening hawaits hcolumn henters hm hpass hbehind
  subst hcolumn
  have hends : endsWord ((w ++ d.rest).headD endOfText) = true := hnode.endsWord hbehind.endsWord
  have hnext := next_of_isPrinted hpass.rest_eq (by decide)
  have hstands := hawaits.item hpass.rest_eq hends (hm rfl) henters
  have hlast := hread hstands (by omega) (fun column hc => ⟨rfl, by simp_all⟩) hpass.uncons hbehind
  simpa using hlast

theorem linesRead_entry {t v : List Char} {style : Style} (hkey : ScalarForm (m + 1) t style v)
    (hfeed : '\n' ∉ v) (hlength : v.length ≤ 1024) (hnode : NodeForm m none ts w)
    (hread : NodeReads l m none ts w) :
    LinesRead l false m (.key :: .scalar (String.ofList t) style :: .value :: ts) (v ++ ':' :: w) := by
  intro c d e b levels levels' ks opening hawaits hcolumn henters hm hpass hbehind
  subst hcolumn
  obtain ⟨c', hpass, hpass'⟩ := hpass.split
  have hends : endsWord ((w ++ d.rest).headD endOfText) = true := hnode.endsWord hbehind.endsWord
  have hb := henters.grow.1
  have hline := (hpass.same_line hfeed hkey.return_notMem).2
  have hnext := next_of_isPrinted hpass'.rest_eq (by decide)
  have hstands := hawaits.key hkey hfeed hlength hpass hpass'.rest_eq hends (by omega) (by omega) henters
  have hlast := hread hstands (by omega) (by rintro column ⟨⟩) hpass'.uncons hbehind
  simpa using hlast

theorem linesRead_explicit (hkey : NodeForm m (some (m + 1)) ts w)
    (hnode : NodeForm m (some (m + 1)) ts' w') (hreadKey : NodeReads l m (some (m + 1)) ts w)
    (hread : NodeReads l m (some (m + 1)) ts' w') :
    LinesRead l false m (.key :: ts ++ .value :: ts')
      ('?' :: (w ++ ('\n' :: List.replicate m ' ' ++ ':' :: w'))) := by
  intro c d e b levels levels' ks opening hawaits hcolumn henters hm hpass hbehind
  subst hcolumn
  have hnext := next_of_isPrinted hpass.rest_eq (by decide)
  obtain ⟨d', hpass', htail⟩ := hpass.uncons.split
  obtain ⟨e', hfeed, htail⟩ := htail.split
  have he' : e'.column = c.column := by
    rw [hfeed.column_of_lineFeed isPrinted_of_mem_spaces, List.length_replicate]
  have hbehind' := behind_colon hfeed htail.rest_eq
  have hkeyed : c.Passes ('?' :: w) d' := .cons hpass.rest_eq hpass'
  have hstands := hawaits.explicitKey hkeyed.rest_eq (hkey.endsWord hbehind'.endsWord) henters
  have hfirst := hreadKey hstands (by omega) (fun column hc => ⟨rfl, by simp_all⟩) hpass' hbehind'
  rw [← he'] at hfirst
  have hends : endsWord ((w' ++ d.rest).headD endOfText) = true := hnode.endsWord hbehind.endsWord
  have hnext' := next_of_isPrinted htail.rest_eq (by decide)
  have hvalue := hfirst.explicitValue htail.rest_eq hends
  rw [he'] at hvalue
  have hlast := hread hvalue (by omega) (fun column hc => ⟨rfl, by simp_all⟩) htail.uncons hbehind
  simpa using hlast

mutual

theorem NodeForm.reads {b : Nat} {here : Option Nat} {ts : List TokenKind} {w : List Char} :
    NodeForm b here ts w → NodeReads l b here ts w
  | .empty => nodeReads_empty
  | .scalar hgap hform => nodeReads_scalar hgap hform
  | .flow => nodeReads_flow
  | .block hm hlead hlines => nodeReads_block hm hlead hlines hlines.reads

theorem LinesForm.reads {sequence : Bool} {m : Nat} {ts : List TokenKind} {w : List Char} :
    LinesForm sequence m ts w → LinesRead l sequence m ts w
  | .one hline => hline.reads
  | .cons hline hrest => linesRead_cons hrest hline.reads hrest.reads

theorem LineForm.reads {sequence : Bool} {m : Nat} {ts : List TokenKind} {w : List Char} :
    LineForm sequence m ts w → LinesRead l sequence m ts w
  | .item hnode => linesRead_item hnode hnode.reads
  | .entry hkey hfeed hlength hnode => linesRead_entry hkey hfeed hlength hnode hnode.reads
  | .explicit hkey hnode => linesRead_explicit hkey hnode hkey.reads hnode.reads

end

/-! ### Documents -/

/-- A token of a collection or a scalar. -/
def TokenKind.IsContent (k : TokenKind) : Prop := k ≠ .comment ∧ k ≠ .streamEnd

@[simp] theorem isContent_start (sequence : Bool) :
    (blockStart sequence).IsContent ∧ (flowStart sequence).IsContent ∧ (flowEnd sequence).IsContent := by
  cases sequence <;> exact ⟨⟨nofun, nofun⟩, ⟨nofun, nofun⟩, ⟨nofun, nofun⟩⟩

@[simp] theorem isContent_scalar (text : String) (style : Style) :
    (TokenKind.scalar text style).IsContent := ⟨nofun, nofun⟩

@[simp] theorem isContent_indicator : TokenKind.blockEntry.IsContent ∧ TokenKind.key.IsContent ∧
    TokenKind.value.IsContent ∧ TokenKind.blockEnd.IsContent :=
  ⟨⟨nofun, nofun⟩, ⟨nofun, nofun⟩, ⟨nofun, nofun⟩, ⟨nofun, nofun⟩⟩

mutual

theorem NodeForm.isContent {b : Nat} {here : Option Nat} {ts : List TokenKind} {w : List Char} :
    NodeForm b here ts w → ∀ k ∈ ts, k.IsContent
  | .empty => by simp
  | .scalar _ _ => by simp
  | .flow => by simp
  | .block _ _ hlines => by
    have := hlines.isContent
    simp_all [or_imp]

theorem LinesForm.isContent {sequence : Bool} {m : Nat} {ts : List TokenKind} {w : List Char} :
    LinesForm sequence m ts w → ∀ k ∈ ts, k.IsContent
  | .one hline => hline.isContent
  | .cons hline hrest => by
    have := hline.isContent
    have := hrest.isContent
    simp_all [or_imp]

theorem LineForm.isContent {sequence : Bool} {m : Nat} {ts : List TokenKind} {w : List Char} :
    LineForm sequence m ts w → ∀ k ∈ ts, k.IsContent
  | .item hnode => by
    have := hnode.isContent
    simp_all
  | .entry _ _ _ hnode => by
    have := hnode.isContent
    simp_all
  | .explicit hkey hnode => by
    have := hkey.isContent
    have := hnode.isContent
    simp_all [or_imp]

end

theorem RootForm.isContent (h : RootForm ts w) : ∀ k ∈ ts, k.IsContent := by
  cases h with
  | empty => simp
  | lines hlines =>
    have := hlines.isContent
    simp_all [or_imp]

/-- Reading through a document goes to its end. -/
theorem RootForm.awaits (h : RootForm ts w) (hpass : (Cursor.start (w ++ r)).Passes w d)
    (hbehind : Behind 0 d e) (hend : e.rest = []) :
    Awaits (Lexer.start (w ++ r)) e true [-1] (.streamStart :: ts) := by
  have hstands : Stands (Lexer.start (w ++ r)) (Cursor.start (w ++ r)) true [-1] [.streamStart] :=
    ⟨[Token.atMark .streamStart ⟨0, 0⟩], rfl, List.forall_mem_singleton.mpr (isBare_atMark _ _), by rw [start_eq]; exact .refl _⟩
  have hcolumn : (Cursor.start (w ++ r)).column = 0 := rfl
  cases h with
  | empty =>
    have hawaits := hstands.awaits_here (n := 0) (.nil _) opens_of_flow
    exact hawaits.flow hpass (by omega) hbehind
  | lines hlines =>
    have hawaits := hstands.awaits_here (n := 0) (.nil _) hlines.opens
    have hlast := hlines.reads hawaits hcolumn (.deeper (by omega)) (by rintro ⟨⟩) hpass hbehind
    have hclosed := hlast.close fun hd => absurd hend hd
    simpa using hclosed

/-- The tokens of a document, with or without an end of its last line. None has comments. -/
theorem RootForm.ofChars (h : RootForm ts w) (hr : r = [] ∨ r = ['\n']) :
    ∃ tokens, TokenStream.ofChars (w ++ r) = { tokens } ∧
      tokens.map (·.kind) = .streamStart :: ts ++ [.streamEnd] ∧ ∀ t ∈ tokens, t.IsBare := by
  have hpass : (Cursor.start (w ++ r)).Passes w ((Cursor.start (w ++ r)).advance w.length) :=
    passes_advance rfl
  have hrest : ((Cursor.start (w ++ r)).advance w.length).rest = r := rest_advance rfl
  obtain ⟨e, hbehind, hend⟩ : ∃ e, Behind 0 ((Cursor.start (w ++ r)).advance w.length) e ∧ e.rest = [] := by
    rcases hr with rfl | rfl
    · exact ⟨_, .stop hrest, hrest⟩
    · have hfeed := Passes.single hrest
      have hnext := rest_next hrest
      refine ⟨_, .line (k := 0) hfeed (Nat.le_refl _) (by rw [hnext]; rintro ch ⟨⟩) ?_, hnext⟩
      simp [atSeparatorLine, atTriple, hnext]
  obtain ⟨tokens, m, hreads, hkinds, hbare⟩ := (h.awaits hpass hbehind hend).finish hend
  have hcontent : ∀ t ∈ tokens, t.kind ≠ .comment ∧ t.kind ≠ .streamEnd := by
    intro t ht
    have hmem : t.kind ∈ TokenKind.streamStart :: ts := hkinds ▸ List.mem_map_of_mem ht
    rcases List.mem_cons.mp hmem with heq | hmem
    · rw [heq]
      exact ⟨by decide, by decide⟩
    · exact h.isContent _ hmem
  refine ⟨_, TokenStream.ofChars_eq hreads ?_ (fun t ht => (hcontent t ht).2) rfl, ?_, ?_⟩
  · intro t ht
    rw [Token.isComment, beq_eq_false_iff_ne]
    rcases List.mem_append.mp ht with ht | ht
    · exact (hcontent t ht).1
    · rw [List.mem_singleton.mp ht]
      exact TokenKind.noConfusion
  · rw [List.map_append, hkinds]
    rfl
  · exact List.forall_mem_append.mpr ⟨hbare, List.forall_mem_singleton.mpr (isBare_atMark _ _)⟩

end BusinessModel.Yaml
