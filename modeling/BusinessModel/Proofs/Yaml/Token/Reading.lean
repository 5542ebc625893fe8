import BusinessModel.Proofs.Yaml.Cursor
import BusinessModel.Proofs.Yaml.Token.Settling

/-!
The tokens of a text as one run of reading steps. Nothing is taken from the queue in such a run; the
tokens of the text are those in the queue at its end.
-/

namespace BusinessModel.Yaml

namespace Cursor

variable {c c' : Cursor}

theorem index_le_next (c : Cursor) : c.index ≤ c.next.index := by
  cases hrest : c.rest with
  | nil =>
    unfold next
    split
    · exact Nat.le_refl _
    · next hcons => rw [hrest] at hcons; cases hcons
  | cons ch r => rw [index_next hrest]; exact Nat.le_succ _

theorem le_advance (n : Nat) (c : Cursor) :
    c.line ≤ (c.advance n).line ∧ c.index ≤ (c.advance n).index := by
  induction n generalizing c with
  | zero => exact ⟨Nat.le_refl _, Nat.le_refl _⟩
  | succ n ih =>
    exact ⟨Nat.le_trans (line_le_next c) (ih c.next).1,
      Nat.le_trans (index_le_next c) (ih c.next).2⟩

theorem advance_of_lineBreak? {b : Char} (h : c.lineBreak? = some (b, c')) :
    ∃ n, c' = c.advance n := by
  unfold lineBreak? at h
  dsimp only at h
  split at h
  · cases h
    exact ⟨2, rfl⟩
  · split at h
    · cases h
      exact ⟨1, rfl⟩
    · split at h
      · cases h
        exact ⟨1, rfl⟩
      · cases h

end Cursor

namespace Lexer

variable {l l' : Lexer} {ts : List Token} {n : Nat}

/-! ### Stale keys -/

theorem advance_of_blanks {inFlow allowed : Bool} {fuel : Nat} {c : Cursor}
    (h : (blanks inFlow fuel allowed c).1 = none) :
    ∃ n, (blanks inFlow fuel allowed c).2.2 = c.advance n := by
  induction fuel generalizing allowed c with
  | zero => exact ⟨0, rfl⟩
  | succ fuel ih =>
    obtain ⟨m, hm⟩ : ∃ m, c.skipSpaces = c.advance m := ⟨_, rfl⟩
    rw [blanks] at h ⊢
    dsimp only at h ⊢
    rw [hm] at h ⊢
    split at h
    · cases h
    · next hcomment =>
      rw [if_neg hcomment]
      cases hbreak : (c.advance m).lineBreak? with
      | none => exact ⟨m, rfl⟩
      | some broken =>
        obtain ⟨b, c'⟩ := broken
        obtain ⟨k, rfl⟩ := Cursor.advance_of_lineBreak? hbreak
        rw [hbreak] at h
        dsimp only at h ⊢
        split at h
        · cases h
        · next hblank =>
          rw [if_neg hblank]
          obtain ⟨j, hj⟩ := ih h
          exact ⟨m + k + j, by rw [hj, Cursor.advance_add, Cursor.advance_add]⟩

/-- Passing blanks goes forward. -/
theorem le_blanksAhead (h : l.blanksAhead.1 = none) :
    l.cursor.line ≤ l.blanksAhead.2.2.line ∧ l.cursor.index ≤ l.blanksAhead.2.2.index := by
  unfold blanksAhead at h ⊢
  dsimp only at h ⊢
  obtain ⟨n, hn⟩ := advance_of_blanks h
  rw [hn]
  split
  · exact l.cursor.le_advance (n + 1)
  · exact l.cursor.le_advance n

/-- No key is remembered for a line that is still to come. -/
def Past (l : Lexer) : Prop := ∀ e ∈ l.keys, e.2.place.line ≤ l.cursor.line

/-- A key that is stale stays so. -/
theorem isStale_mono {c c' : Cursor} {k : SimpleKey} (hpast : k.place.line ≤ c.line)
    (hline : c.line ≤ c'.line) (hindex : c.index ≤ c'.index) (h : isStale c k = true) :
    isStale c' k = true := by
  simp only [isStale, Bool.or_eq_true, bne_iff_ne, ne_eq, decide_eq_true_eq] at h ⊢
  omega

/-- Stale keys may be dropped before the next step: it drops them anyway. -/
theorem fetch_dropStaleKeys (hpast : l.Past) (hblanks : l.blanksAhead.1 = none)
    (hfetch : l.fetch = .ok l') :
    ∃ m, l.dropStaleKeys = .ok m ∧ m.fetch = .ok l' := by
  obtain ⟨hline, hindex⟩ := le_blanksAhead hblanks
  have hmono : ∀ e ∈ l.keys, isStale l.cursor e.2 = true → isStale l.blanksAhead.2.2 e.2 = true :=
    fun e he => isStale_mono (hpast e he) hline hindex
  rw [fetch_eq, hblanks] at hfetch
  obtain ⟨m, hm, hrest⟩ := bind_eq_ok_iff.mp hfetch
  obtain ⟨hfree, rfl⟩ := dropStaleKeys_eq_ok_iff.mp hm
  have hkeys : (l.keys.filter fun e => !isStale l.cursor e.2).filter
      (fun e => !isStale l.blanksAhead.2.2 e.2) =
        l.keys.filter fun e => !isStale l.blanksAhead.2.2 e.2 := by
    rw [List.filter_filter]
    refine List.filter_congr fun e he => ?_
    have := hmono e he
    cases hstale : isStale l.cursor e.2 <;> simp_all
  refine ⟨_, dropStaleKeys_eq_ok_iff.mpr ⟨fun e he hstale => hfree e he (hmono e he hstale), rfl⟩, ?_⟩
  have hahead (ks : List (Nat × SimpleKey)) :
      (l.withKeys ks).blanksAhead = l.blanksAhead ∧
        (l.withKeys ks).pastBlanks = l.pastBlanks.withKeys ks := ⟨rfl, rfl⟩
  rw [fetch_eq, (hahead _).1, (hahead _).2, hblanks]
  refine bind_eq_ok_iff.mpr ⟨_, dropStaleKeys_eq_ok_iff.mpr
    ⟨fun e he => hfree e (List.mem_of_mem_filter he), rfl⟩, ?_⟩
  show (Lexer.unwind _ (l.pastBlanks.withKeys ((l.keys.filter fun e => !isStale l.cursor e.2).filter
    fun e => !isStale l.blanksAhead.2.2 e.2))).dispatch = _
  rw [hkeys]
  exact hrest

/-! ### Runs -/

/-- A bound on the tokens that are still to come. -/
def potential (l : Lexer) : Nat :=
  4 * l.cursor.size + l.queue.length + l.indents.length + 4 * (!l.done).toNat

theorem potential_trim (hn : n ≤ l.queue.length) : (l.trim n).potential + n = l.potential := by
  simp only [potential, trim, List.length_drop]
  omega

/-- A step of reading that meets no comment. -/
structure Step (l l' : Lexer) : Prop where
  unfinished : l.done = false
  fetch_eq : l.fetch = .ok l'
  blanks_eq : l.blanksAhead.1 = none
  past : l.Past
  size_lt : l'.done = false → l'.cursor.size < l.cursor.size
  potential_le : l'.potential ≤ l.potential
  sublist : l.queue.Sublist l'.queue
  length_lt : l.queue.length < l'.queue.length

/-- Reading comes to an end with the tokens in the queue. -/
inductive Reads : Lexer → List Token → Prop where
  | finished {l : Lexer} (hdone : l.done = true) (hkeys : l.keys = []) : Reads l l.queue
  | step {l l' : Lexer} {ts : List Token} (hstep : Step l l') (hrest : Reads l' ts) : Reads l ts

theorem Step.trim (h : Step l l') (hl : l.Settles n) (hn : n < l.queue.length) :
    Step (l.trim n) (l'.trim n) := by
  obtain ⟨_, htake, hle⟩ := respects_fetch.keeps h.fetch_eq hl
  have hsublist : (l.queue.take n ++ l.queue.drop n).Sublist (l.queue.take n ++ l'.queue.drop n) := by
    rw [List.take_append_drop, ← htake, List.take_append_drop]
    exact h.sublist
  have hpotential := potential_trim hl.le_length
  have hpotential' := potential_trim (Nat.le_trans hl.le_length hle)
  have hbound := h.potential_le
  have hlength := h.length_lt
  refine ⟨h.unfinished, respects_fetch.trims h.fetch_eq hl hn, h.blanks_eq, h.past, h.size_lt,
    by omega, (List.append_sublist_append_left _).mp hsublist, ?_⟩
  simp only [Lexer.trim, List.length_drop]
  omega

namespace Reads

/-- The tokens in the queue are among those that are read. -/
theorem sublist (h : Reads l ts) : l.queue.Sublist ts := by
  induction h with
  | finished => exact List.Sublist.refl _
  | step hstep _ ih => exact hstep.sublist.trans ih

/-- Settled tokens are read as they are. -/
theorem take_eq (h : Reads l ts) (hl : l.Settles n) : ts.take n = l.queue.take n := by
  induction h with
  | finished => rfl
  | step hstep _ ih =>
    obtain ⟨hsettles, htake, _⟩ := respects_fetch.keeps hstep.fetch_eq hl
    exact (ih hsettles).trans htake

/-- What is read when settled tokens have been taken. -/
theorem trim (h : Reads l ts) (hl : l.Settles n) (hn : l.done = false → n < l.queue.length) :
    Reads (l.trim n) (ts.drop n) := by
  induction h with
  | finished hdone hkeys => exact .finished (l := Lexer.trim n _) hdone hkeys
  | step hstep _ ih =>
    have hn := hn hstep.unfinished
    obtain ⟨hsettles, _, _⟩ := respects_fetch.keeps hstep.fetch_eq hl
    exact .step (hstep.trim hl hn) (ih hsettles fun _ => Nat.lt_trans hn hstep.length_lt)

theorem exists_step (h : Reads l ts) (hl : l.done = false) : ∃ l', Step l l' ∧ Reads l' ts := by
  cases h with
  | finished hdone => exact absurd (hl.symm.trans hdone) (by decide)
  | step hstep hrest => exact ⟨_, hstep, hrest⟩

theorem queue_eq (h : Reads l ts) (hl : l.done = true) : l.queue = ts := by
  cases h with
  | finished => rfl
  | step hstep _ => exact absurd (hl.symm.trans hstep.unfinished) (by decide)

/-- What is read when stale keys have been dropped. -/
theorem dropStaleKeys (h : Reads l ts) (hl : l.done = false) :
    ∃ ks, ks ⊆ l.keys ∧ l.dropStaleKeys = .ok (l.withKeys ks) ∧
      (l.withKeys ks).Reads ts := by
  obtain ⟨l', hstep, hrest⟩ := h.exists_step hl
  obtain ⟨m, hm, hfetch⟩ := fetch_dropStaleKeys hstep.past hstep.blanks_eq hstep.fetch_eq
  obtain ⟨_, rfl⟩ := dropStaleKeys_eq_ok_iff.mp hm
  exact ⟨_, List.filter_subset_self _, hm, .step ⟨hstep.unfinished, hfetch, hstep.blanks_eq,
    fun e he => hstep.past e (List.mem_of_mem_filter he), hstep.size_lt, hstep.potential_le,
    hstep.sublist, hstep.length_lt⟩ hrest⟩

end Reads

/-! ### The next token -/

/-- Whether the first token in the queue is settled. -/
def IsSettled (l : Lexer) : Prop := l.done = true ∨ ∀ e ∈ l.keys, e.2.number ≠ l.taken

theorem IsSettled.settles (h : l.IsSettled) (hl : l.Settles 0) (hqueue : l.queue ≠ [])
    (hreads : Reads l ts) : l.Settles 1 := by
  refine ⟨List.length_pos_of_ne_nil hqueue, fun e he => ?_⟩
  have hlate := hl.late e he
  rcases h with hdone | hother
  · cases hreads with
    | finished _ hkeys => rw [hkeys] at he; cases he
    | step hstep _ => rw [hstep.unfinished] at hdone; cases hdone
  · have := hother e he
    omega

theorem Settles.of_keys {ks : List (Nat × SimpleKey)} (h : l.Settles n) (hks : ks ⊆ l.keys) :
    (l.withKeys ks).Settles n := ⟨h.le_length, fun e he => h.late e (hks he)⟩

theorem IsSettled.of_keys {ks : List (Nat × SimpleKey)} (h : l.IsSettled) (hks : ks ⊆ l.keys) :
    (l.withKeys ks).IsSettled := h.imp id fun hother e he => hother e (hks he)

namespace Reads

theorem needsMore (h : Reads l ts) (hqueue : l.queue ≠ []) :
    ∃ more ks, ks ⊆ l.keys ∧ l.needsMore = .ok (more, (l.withKeys ks)) ∧
      (l.withKeys ks).Reads ts ∧ (more = true → l.done = false ∧ ¬ l.IsSettled) ∧
        (more = false → (l.withKeys ks).IsSettled) := by
  rw [Lexer.needsMore]
  cases hdone : l.done with
  | true =>
    refine ⟨false, l.keys, List.Subset.refl _, rfl, h, ?_, fun _ => .inl hdone⟩
    rintro ⟨⟩
  | false =>
    obtain ⟨ks, hks, hdrop, hreads⟩ := h.dropStaleKeys hdone
    refine ⟨ks.any (·.2.number == l.taken), ks, hks, ?_, hreads, fun hmore => ⟨rfl, ?_⟩, fun hmore => ?_⟩
    · have hempty : l.queue.isEmpty = false := by
        rw [List.isEmpty_eq_false_iff]
        exact hqueue
      rw [if_neg (by decide), hempty, if_neg (by decide), hdrop]
      rfl
    · rintro (hdone' | hother)
      · rw [hdone] at hdone'
        cases hdone'
      · obtain ⟨e, he, heq⟩ := List.any_eq_true.mp hmore
        exact hother e (hks he) (by simpa using heq)
    · refine .inr fun e he heq => ?_
      have := List.any_eq_false.mp hmore e he
      exact this (beq_iff_eq.mpr heq)

/-- Reading on settles the first token. -/
theorem settle {fuel : Nat} (h : Reads l ts) (hl : l.Settles 0) (hqueue : l.queue ≠ [])
    (hfuel : l.done = false → l.cursor.size + 1 < fuel) :
    ∃ m, Lexer.settle fuel l = .ok m ∧ Reads m ts ∧ m.Settles 0 ∧ m.queue ≠ [] ∧ m.IsSettled ∧
      m.potential ≤ l.potential := by
  induction fuel generalizing l with
  | zero =>
    have hdone : l.done = true := by
      by_contra hne
      have := hfuel (by simpa using hne)
      omega
    exact ⟨l, rfl, h, hl, hqueue, .inl hdone, Nat.le_refl _⟩
  | succ fuel ih =>
    obtain ⟨more, ks, hks, hmore, hreads, hgo, hstop⟩ := h.needsMore hqueue
    rw [Lexer.settle, hmore]
    cases more with
    | false => exact ⟨_, rfl, hreads, hl.of_keys hks, hqueue, hstop rfl, Nat.le_refl _⟩
    | true =>
      have hdone := (hgo rfl).1
      obtain ⟨l', hstep, hrest⟩ := hreads.exists_step hdone
      obtain ⟨hsettles, _, _⟩ := respects_fetch.keeps hstep.fetch_eq (hl.of_keys hks)
      have hlength := hstep.length_lt
      obtain ⟨m, hm, hreads, hsettles, hqueue, hsettled, hpotential⟩ :=
        ih hrest hsettles (List.ne_nil_of_length_pos (by omega)) fun hdone' => by
          have hsize : l'.cursor.size < l.cursor.size := hstep.size_lt hdone'
          have := hfuel hdone
          omega
      refine ⟨m, ?_, hreads, hsettles, hqueue, hsettled, Nat.le_trans hpotential hstep.potential_le⟩
      show ((l.withKeys ks).fetch >>= Lexer.settle fuel) = _
      exact bind_eq_ok_iff.mpr ⟨l', hstep.fetch_eq, hm⟩

/-- A settled token that is no comment has no comments before it. -/
theorem gatherComments {fuel : Nat} (h : Reads l ts) (hqueue : l.queue ≠ []) (hl : l.IsSettled)
    (hfuel : fuel ≠ 0) :
    ∃ ks, ks ⊆ l.keys ∧ Lexer.gatherComments fuel false l = .ok (false, (l.withKeys ks)) ∧
      (l.withKeys ks).Reads ts := by
  obtain ⟨fuel, rfl⟩ := Nat.exists_eq_succ_of_ne_zero hfuel
  obtain ⟨more, ks, hks, hmore, hreads, hgo, _⟩ := h.needsMore hqueue
  have hmoreFalse : more = false := by
    cases more with
    | false => rfl
    | true => exact absurd hl (hgo rfl).2
  subst hmoreFalse
  exact ⟨ks, hks, by rw [Lexer.gatherComments, hmore]; rfl, hreads⟩

end Reads

theorem popComment?_eq_none (h : ∀ t ∈ l.queue, t.isComment = false) : l.popComment? = none := by
  unfold popComment?
  split
  · next t rest heq => rw [h t (heq ▸ List.mem_cons_self)]; rfl
  · rfl

/-- The next token is settled, and one beyond it has been read. -/
theorem Reads.view (h : Reads l ts) (hl : l.Settles 0) (hqueue : l.queue ≠ [])
    (hts : ∀ t ∈ ts, t.isComment = false) :
    ∃ m, l.view = .ok m ∧ Reads m ts ∧ m.Settles 1 ∧ (m.done = false → 1 < m.queue.length) ∧
      m.potential ≤ l.potential := by
  have hbudget (l : Lexer) : l.cursor.size + 1 < l.budget := Nat.lt_succ_self _
  obtain ⟨m, hm, hreads, hsettles, hqueue, hsettled, hpotential⟩ :=
    h.settle hl hqueue fun _ => hbudget l
  have hnone : m.popComment? = none :=
    popComment?_eq_none fun t ht => hts t (hreads.sublist.subset ht)
  obtain ⟨ks, hks, hgather, hreads⟩ := hreads.gatherComments hqueue hsettled
    (Nat.ne_zero_of_lt (hbudget m))
  have hfirst := (hsettled.of_keys hks).settles (hsettles.of_keys hks) hqueue hreads
  have heq : l.view = if !m.done && decide (m.queue.length < 2) then (m.withKeys ks).fetch
      else .ok (m.withKeys ks) := by
    have hempty : ¬ m.queue.isEmpty = true := by
      rw [List.isEmpty_iff]
      exact hqueue
    unfold Lexer.view
    rw [hm]
    dsimp only [bind, Except.bind]
    rw [if_neg hempty, hnone]
    dsimp only
    rw [hgather]
    rfl
  rw [heq]
  split
  · next hfetch =>
    rw [Bool.and_eq_true, Bool.not_eq_true'] at hfetch
    obtain ⟨l', hstep, hrest⟩ := hreads.exists_step hfetch.1
    obtain ⟨hsettles', _, _⟩ := respects_fetch.keeps hstep.fetch_eq hfirst
    have hlength : m.queue.length < l'.queue.length := hstep.length_lt
    have hpos := List.length_pos_of_ne_nil hqueue
    exact ⟨l', hstep.fetch_eq, hrest, hsettles', fun _ => by omega,
      Nat.le_trans hstep.potential_le hpotential⟩
  · next hfetch =>
    refine ⟨_, rfl, hreads, hfirst, fun hdone => ?_, hpotential⟩
    have hunfinished : m.done = false := hdone
    rw [hunfinished, Bool.not_false, Bool.true_and, decide_eq_true_eq] at hfetch
    exact Nat.le_of_not_lt hfetch

/-- The next token is taken from the queue. -/
theorem take?_eq {t : Token} {rest : List Token} (hqueue : l.queue = t :: rest)
    (hrest : ∀ t ∈ rest, t.isComment = false) : l.take? = .ok (some (t, l.trim 1)) := by
  have hfollows (c : Token) (hc : c ∈ rest) (b : Bool) : (c.isComment && b) = false := by
    rw [hrest c hc, Bool.false_and]
  have htrim : ({ l with queue := l.queue.tail, taken := l.taken + 1 } : Lexer) = l.trim 1 := by
    rw [trim, List.drop_one]
  unfold take?
  rw [← htrim]
  cases rest with
  | nil =>
    rw [hqueue]
    rfl
  | cons c more =>
    rw [hqueue]
    dsimp only
    rw [hfollows c List.mem_cons_self]
    simp only [Bool.false_eq_true, if_false, ← hqueue]
    rfl

end Lexer

namespace TokenStream

open Lexer

variable {l : Lexer} {ts seen : List Token} {e : Token}

/-- A run of reading gives the tokens of a text. -/
theorem collect_eq {fuel : Nat} (h : Reads l (ts ++ [e])) (hl : l.Settles 0) (hqueue : l.queue ≠ [])
    (hcomments : ∀ t ∈ ts ++ [e], t.isComment = false) (hends : ∀ t ∈ ts, t.kind ≠ .streamEnd)
    (he : e.kind = .streamEnd) (hfuel : l.potential < fuel) :
    collect fuel seen l = { tokens := seen.reverse ++ (ts ++ [e]) } := by
  induction fuel generalizing l ts seen with
  | zero => cases hfuel
  | succ fuel ih =>
    obtain ⟨m, hm, hreads, hsettles, hmore, hpotential⟩ := h.view hl hqueue hcomments
    have htake := hreads.take_eq hsettles
    obtain ⟨t, rest, hcons⟩ := List.exists_cons_of_length_pos hsettles.le_length
    have hrest : ∀ t ∈ rest, t.isComment = false := fun u hu =>
      hcomments u (hreads.sublist.subset (hcons ▸ List.mem_cons_of_mem _ hu))
    rw [collect, hm]
    dsimp only
    rw [take?_eq hcons hrest]
    dsimp only
    rw [hcons] at htake
    cases ts with
    | nil =>
      obtain rfl : e = t := by simpa using htake
      rw [he]
      simp
    | cons u ts =>
      obtain rfl : u = t := by simpa using htake
      rw [if_neg (by simpa using hends u List.mem_cons_self)]
      have hrun : Reads (m.trim 1) (ts ++ [e]) := hreads.trim hsettles hmore
      have hnext : (m.trim 1).Settles 0 := ⟨Nat.zero_le _, hsettles.late⟩
      have hqueue' : (m.trim 1).queue ≠ [] := by
        cases hdone : m.done with
        | true =>
          rw [hrun.queue_eq hdone]
          simp
        | false =>
          have := hmore hdone
          refine List.ne_nil_of_length_pos ?_
          simp only [trim, List.length_drop]
          omega
      have hless := potential_trim hsettles.le_length
      rw [ih hrun hnext hqueue' (fun v hv => hcomments v (List.mem_cons_of_mem _ hv))
        (fun v hv => hends v (List.mem_cons_of_mem _ hv)) (by omega)]
      simp

/-- The tokens of a text are those in the queue when it has been read without taking any. -/
theorem ofChars_eq {cs : List Char} (h : Reads (Lexer.start cs) (ts ++ [e]))
    (hcomments : ∀ t ∈ ts ++ [e], t.isComment = false) (hends : ∀ t ∈ ts, t.kind ≠ .streamEnd)
    (he : e.kind = .streamEnd) : ofChars cs = { tokens := ts ++ [e] } := by
  refine collect_eq h ⟨Nat.zero_le _, fun e he => by cases he⟩ (List.cons_ne_nil _ _) hcomments hends
    he ?_
  show 4 * cs.length + 1 + 0 + 4 < 4 * cs.length + 16
  omega

end TokenStream

end BusinessModel.Yaml
