import BusinessModel.Proofs.Yaml.Token.Plain
import Mathlib.Algebra.Group.Nat.Defs
import Mathlib.Data.List.Chain

/-!
What is written for a scalar is a writing of its text: folding a scalar at the width of lines does
not change what is read, as long as no space stands beside a fold.
-/

namespace BusinessModel.Yaml

namespace Pen

variable {p : Pen} {n : Nat}

@[simp] theorem written_put (cs : List Char) : (p.put cs).written = cs.reverse ++ p.written := rfl

@[simp] theorem column_put (cs : List Char) : (p.put cs).column = p.column + cs.length := rfl

@[simp] theorem fresh_put (cs : List Char) : (p.put cs).fresh = p.fresh := rfl

@[simp] theorem written_inked : p.inked.written = p.written := rfl

@[simp] theorem column_inked : p.inked.column = p.column := rfl

@[simp] theorem fresh_inked : p.inked.fresh = false := rfl

@[simp] theorem written_attach (cs : List Char) : (p.attach cs).written = cs.reverse ++ p.written := rfl

theorem padTo_eq (h : p.column < n ∨ p.column = n ∧ p.blank = true) :
    p.padTo n =
      ⟨List.replicate (n - p.column) ' ' ++ p.written, n, true, p.fresh⟩ := by
  unfold padTo
  split
  · next hlt =>
    have hcolumn : p.column + (n - p.column) = n := by omega
    simp [put, hcolumn]
  · next hge =>
    rcases h with h | ⟨rfl, hblank⟩
    · exact absurd h hge
    · rcases p with ⟨written, column, blank, fresh⟩
      simp_all

/-- A new line is begun if anything stands in the way. -/
theorem indentTo_break (h : p.fresh = true → n < p.column ∨ n = p.column ∧ p.blank = false) :
    p.indentTo n = ⟨List.replicate n ' ' ++ '\n' :: p.written, n, true, true⟩ := by
  have hstay : (p.fresh && (decide ((p.column : Int) < n) || ((p.column : Int) == n && p.blank))) =
      false := by
    cases hfresh : p.fresh with
    | false => rfl
    | true =>
      rcases h hfresh with hcolumn | ⟨rfl, hblank⟩
      · have hlt : ¬ (p.column : Int) < n := by omega
        have hne : ¬ (p.column : Int) = n := by omega
        simp [hlt, hne]
      · simp [hblank]
  have hpad := padTo_eq (p := p.breakLine) (n := n) (by
    rcases Nat.eq_zero_or_pos n with rfl | hpos
    · exact .inr ⟨rfl, rfl⟩
    · exact .inl hpos)
  unfold indentTo
  dsimp only
  rw [hstay, if_neg (by decide)]
  exact hpad

/-- The line goes on if only indicators stand before the column. -/
theorem indentTo_stay (hfresh : p.fresh = true) (h : p.column < n ∨ p.column = n ∧ p.blank = true) :
    p.indentTo n = ⟨List.replicate (n - p.column) ' ' ++ p.written, n, true, true⟩ := by
  have hstay : (p.fresh && (decide ((p.column : Int) < n) || ((p.column : Int) == n && p.blank))) =
      true := by
    rw [hfresh, Bool.true_and, Bool.or_eq_true, Bool.and_eq_true, decide_eq_true_eq, beq_iff_eq]
    exact h.imp (by omega) (And.imp (by omega) id)
  unfold indentTo
  dsimp only
  rw [hstay, if_pos rfl, Int.toNat_natCast, padTo_eq h, hfresh]

theorem foldl_breakLine {run : List Char} (hrun : run ≠ []) :
    run.foldl (fun p c => p.breakLine c) p = ⟨run.reverse ++ p.written, 0, true, true⟩ := by
  induction run generalizing p with
  | nil => exact absurd rfl hrun
  | cons c run ih =>
    cases run with
    | nil => rfl
    | cons d run =>
      rw [List.foldl_cons, ih (List.cons_ne_nil _ _)]
      simp [breakLine]

end Pen

namespace Folding

variable {cs : List Char} {rs : List (List Char)}

/-! ### Runs -/

/-- Characters of one kind. -/
def IsRun (k : Nat) (run : List Char) : Prop := run ≠ [] ∧ ∀ c ∈ run, kind c = k

/-- Runs of characters, of which every second is a word. -/
structure AreRuns (rs : List (List Char)) : Prop where
  isRun : ∀ run ∈ rs, ∃ k, IsRun k run
  isChain : rs.IsChain fun a b => IsRun 0 a ↔ ¬ IsRun 0 b

theorem isRun_cons_iff {k : Nat} {c : Char} {run : List Char} :
    IsRun k (c :: run) ↔ kind c = k ∧ ∀ d ∈ run, kind d = k :=
  ⟨fun h => ⟨h.2 c List.mem_cons_self, fun d hd => h.2 d (List.mem_cons_of_mem _ hd)⟩,
    fun h => ⟨List.cons_ne_nil _ _, List.forall_mem_cons.mpr h⟩⟩

theorem flatten_runs (cs : List Char) : (runs kind cs).flatten = cs := by
  induction cs with
  | nil => rfl
  | cons c cs ih =>
    rw [runs]
    split
    · next d run more heq =>
      rw [heq] at ih
      split
      · simpa using ih
      · simpa using ih
    · next heq => simpa using ih

theorem adjacent_eq_false_iff {p q : Char → Bool} :
    Quoting.adjacent p q cs = false ↔ cs.IsChain fun a b => p a = true → q b = false := by
  induction cs with
  | nil => exact iff_of_true rfl .nil
  | cons a cs ih =>
    cases cs with
    | nil => exact iff_of_true rfl (.singleton a)
    | cons b cs =>
      rw [Quoting.adjacent, Bool.or_eq_false_iff, ih, List.isChain_cons_cons, Bool.and_eq_false_iff]
      cases p a <;> simp

/-- The runs of a text in which no space stands beside the end of a line. -/
theorem areRuns_runs (h : cs.IsChain fun a b => kind a = kind b ∨ kind a = 0 ∨ kind b = 0) :
    AreRuns (runs kind cs) := by
  induction cs with
  | nil => exact ⟨fun run hrun => (List.not_mem_nil hrun).elim, .nil⟩
  | cons c cs ih =>
    obtain ⟨hruns, hchain⟩ := ih h.of_cons
    have hflatten := flatten_runs cs
    have hsingle : IsRun (kind c) [c] := ⟨List.cons_ne_nil _ _, by simp⟩
    rw [runs]
    split
    · next d run more heq =>
      rw [heq] at hruns hchain hflatten
      obtain ⟨k, hk⟩ := hruns _ List.mem_cons_self
      obtain rfl : kind d = k := hk.2 d List.mem_cons_self
      have hcd : kind c = kind d ∨ kind c = 0 ∨ kind d = 0 := by
        rw [← hflatten] at h
        exact (List.isChain_cons_cons.mp h).1
      split
      · next hkind =>
        have hgrown {j : Nat} : IsRun j (c :: d :: run) ↔ IsRun j (d :: run) := by
          rw [isRun_cons_iff, List.forall_mem_cons, isRun_cons_iff, beq_iff_eq.mp hkind]
          exact ⟨And.right, fun h => ⟨h.1, h⟩⟩
        constructor
        · intro r hr
          rcases List.mem_cons.mp hr with rfl | hr
          · exact ⟨_, hgrown.mpr hk⟩
          · exact hruns r (List.mem_cons_of_mem _ hr)
        · cases more with
          | nil => exact .singleton _
          | cons r more =>
            rw [List.isChain_cons_cons] at hchain ⊢
            exact ⟨hgrown.trans hchain.1, hchain.2⟩
      · next hkind =>
        constructor
        · intro r hr
          rcases List.mem_cons.mp hr with rfl | hr
          · exact ⟨_, hsingle⟩
          · exact hruns r hr
        · refine List.isChain_cons_cons.mpr ⟨?_, hchain⟩
          have hne : kind c ≠ kind d := fun heq => hkind (beq_iff_eq.mpr heq)
          have hc : IsRun 0 [c] ↔ kind c = 0 := by simp [isRun_cons_iff]
          have hd : IsRun 0 (d :: run) ↔ kind d = 0 :=
            ⟨fun h => h.2 d List.mem_cons_self, fun h => h ▸ hk⟩
          rw [hc, hd]
          omega
    · next hnone =>
      have hempty : runs kind cs = [] := by
        cases hmore : runs kind cs with
        | nil => rfl
        | cons r more =>
          cases r with
          | nil => exact absurd rfl (hruns _ (by rw [hmore]; exact List.mem_cons_self)).choose_spec.1
          | cons d run => exact (hnone d run more hmore).elim
      rw [hempty]
      exact ⟨fun r hr => ⟨_, List.mem_singleton.mp hr ▸ hsingle⟩, .singleton _⟩

/-! ### Scalars between apostrophes -/

variable {f : Folding} {p : Pen} {n : Nat}

theorem fold_eq (hf : f.indent = some (n : Int)) (h : p.fresh = true → n < p.column) :
    f.fold p = ⟨List.replicate n ' ' ++ '\n' :: p.written, n, true, true⟩ := by
  rw [fold, hf]
  exact Pen.indentTo_break fun hfresh => .inl (h hfresh)

theorem breakRun_eq {run : List Char} (hf : f.indent = some ((n + 1 : Nat) : Int)) (hrun : run ≠ []) :
    f.breakRun p run = ⟨List.replicate (n + 1) ' ' ++ (run.reverse ++
      if run.head? = some '\n' then '\n' :: p.written else p.written), n + 1, true, true⟩ := by
  unfold breakRun
  dsimp only
  rw [Pen.foldl_breakLine hrun, fold, hf]
  refine (Pen.indentTo_stay rfl (.inl (Nat.succ_pos n))).trans ?_
  by_cases hhead : run.head? = some '\n'
  · simp [hhead, Pen.breakLine]
  · simp [hhead]

theorem isReadable_of_not_isSpecial {c : Char} (h : Quoting.isSpecial c = false) : isReadable c = true := by
  simp only [Quoting.isSpecial, Bool.not_eq_false', Bool.or_eq_true, beq_iff_eq] at h
  rcases h with ((rfl | rfl) | hprinted) | hwide
  · decide
  · decide
  · simp only [Bool.and_eq_true, decide_eq_true_eq, Char.le_def, UInt32.le_iff_toNat_le] at hprinted
    have hlow : 0x20 ≤ c.toNat := hprinted.1
    have hhigh : c.toNat ≤ 0x7E := hprinted.2
    simp [isReadable, hlow, hhigh]
  · simp only [Quoting.isWide, Bool.or_eq_true, Bool.and_eq_true, decide_eq_true_eq] at hwide
    simp only [isReadable, Bool.or_eq_true, Bool.and_eq_true, decide_eq_true_eq]
    omega

/-- A character that is written between quotation marks as it is, or apart from the marks
themselves. -/
theorem isQuotedText_of_kind {c : Char} (hspecial : Quoting.isSpecial c = false) (hkind : kind c = 0) :
    (isQuotedText c = true ∧ isReadable c = true) ∨ c = '\'' ∨ c = '"' ∨ c = '\\' := by
  have hne (d : Char) (hd : Quoting.isSpecial d = true ∨ kind d ≠ 0) : c ≠ d := by
    rintro rfl
    rcases hd with hd | hd
    · exact absurd hspecial (by rw [hd]; decide)
    · exact hd hkind
  by_cases hmark : c = '\'' ∨ c = '"' ∨ c = '\\'
  · exact .inr hmark
  · simp only [not_or] at hmark
    refine .inl ⟨?_, isReadable_of_not_isSpecial hspecial⟩
    simp [isQuotedText, isBreakOrEnd, isBreak, isSeparator, endOfText, hmark,
      hne ' ' (by decide), hne '\t' (by decide), hne '\x00' (by decide), hne '\r' (by decide),
      hne '\n' (by decide), hne '\x85' (by decide), hne '\u2028' (by decide),
      hne '\u2029' (by decide)]

theorem solid_of_kind {c : Char} (hspecial : Quoting.isSpecial c = false) (hkind : kind c = 0) :
    isSpaceOrTab c = false ∧ isBreakOrEnd c = false := by
  rcases isQuotedText_of_kind hspecial hkind with ⟨h, _⟩ | rfl | rfl | rfl
  · simp only [isQuotedText, Bool.not_eq_true', Bool.or_eq_false_iff] at h
    exact ⟨by simp [isSpaceOrTab, h], h.2⟩
  all_goals decide

theorem isLineEnd_of_kind {c : Char} (hnext : c ≠ '\x85') (hkind : kind c = 2) : isLineEnd c = true := by
  unfold kind at hkind
  split at hkind
  · cases hkind
  · split at hkind
    · next hend =>
      simp only [Quoting.endsLine, Bool.or_eq_true, beq_iff_eq, hnext, or_false] at hend
      simpa [isLineEnd, isSeparator, or_assoc] using hend
    · cases hkind

theorem eq_space_of_kind {c : Char} (hkind : kind c = 1) : c = ' ' := by
  unfold kind at hkind
  split at hkind
  · next hspace => exact beq_iff_eq.mp hspace
  · split at hkind <;> cases hkind

/-- A character between apostrophes: an apostrophe is doubled. -/
def doubled (c : Char) : List Char := if c == '\'' then ['\'', '\''] else [c]

theorem mem_doubled (c : Char) : c ∈ doubled c := by
  unfold doubled
  split
  · next hmark => rw [beq_iff_eq.mp hmark]; exact List.mem_cons_self
  · exact List.mem_cons_self

theorem quotedForm_doubled {run t w : List Char} (h : QuotedForm false t w)
    (hrun : ∀ c ∈ run, Quoting.isSpecial c = false ∧ kind c = 0) :
    QuotedForm false (run ++ t) (run.flatMap doubled ++ w) := by
  induction run with
  | nil => exact h
  | cons c run ih =>
    have hrest := ih fun d hd => hrun d (List.mem_cons_of_mem _ hd)
    obtain ⟨hspecial, hkind⟩ := hrun c List.mem_cons_self
    rw [List.cons_append, List.flatMap_cons, List.append_assoc]
    by_cases hc : c = '\''
    · subst hc
      exact .apostrophe rfl hrest
    · have hdoubled : doubled c = [c] := if_neg (by simpa using hc)
      rw [hdoubled]
      rcases isQuotedText_of_kind hspecial hkind with htext | hmark | hmark
      · exact .char htext.1 htext.2 hrest
      · exact absurd hmark hc
      · exact .mark (by simpa using hmark) hrest

theorem length_flatMap_doubled_le (run : List Char) : (run.flatMap doubled).length ≤ 2 * run.length := by
  induction run with
  | nil => exact Nat.le_refl _
  | cons c run ih =>
    have hc : (doubled c).length ≤ 2 := by
      unfold doubled
      split <;> simp
    rw [List.flatMap_cons, List.length_append, List.length_cons]
    omega

theorem lineFeed_notMem_doubled {run : List Char} (hrun : ∀ c ∈ run, kind c = 0) :
    '\n' ∉ run.flatMap doubled := by
  intro hmem
  obtain ⟨c, hc, hfeed⟩ := List.mem_flatMap.mp hmem
  unfold doubled at hfeed
  split at hfeed
  · exact absurd hfeed (by decide)
  · rw [← List.mem_singleton.mp hfeed] at hc
    exact absurd (hrun _ hc) (by decide)

theorem solid_doubled {run : List Char} (hrun : IsRun 0 run)
    (hspecial : ∀ c ∈ run, Quoting.isSpecial c = false) (w : List Char) :
    Solid (run.flatMap doubled ++ w) := by
  obtain ⟨hne, hkind⟩ := hrun
  cases run with
  | nil => exact absurd rfl hne
  | cons c run =>
    obtain ⟨r, hr⟩ : ∃ r, doubled c = c :: r := by
      unfold doubled
      split
      · next hc => exact ⟨['\''], by rw [beq_iff_eq.mp hc]⟩
      · exact ⟨[], rfl⟩
    intro d hd
    obtain rfl : c = d := by simpa [hr] using hd
    exact solid_of_kind (hspecial c List.mem_cons_self) (hkind c List.mem_cons_self)

theorem AreRuns.tail {run : List Char} (h : AreRuns (run :: rs)) : AreRuns rs :=
  ⟨fun r hr => h.isRun r (List.mem_cons_of_mem _ hr), h.isChain.of_cons⟩

theorem IsRun.kind_unique {j k : Nat} {run : List Char} (hj : IsRun j run) (hk : IsRun k run) : j = k := by
  obtain ⟨c, hc⟩ := List.exists_mem_of_ne_nil run hj.1
  rw [← hj.2 c hc, ← hk.2 c hc]

/-- Behind a run that is no word there is a word, if anything. -/
theorem AreRuns.word_behind {k : Nat} {run : List Char} (h : AreRuns (run :: rs)) (hrun : IsRun k run)
    (hk : k ≠ 0) : ∀ r ∈ rs.head?, IsRun 0 r := by
  intro r hr
  by_contra hother
  exact hk (hrun.kind_unique (((List.isChain_cons.mp h.isChain).1 r hr).mpr hother))

theorem IsRun.isRunOf_eq {k : Nat} {q : Char → Bool} {run : List Char} {b : Bool} (h : IsRun k run)
    (hq : ∀ c, kind c = k → q c = b) : isRunOf q run = b := by
  obtain ⟨hne, hkind⟩ := h
  cases run with
  | nil => exact absurd rfl hne
  | cons c run => exact hq c (hkind c List.mem_cons_self)

theorem kind_cases (c : Char) :
    (kind c = 1 ∧ (c == ' ') = true) ∨ (kind c = 2 ∧ (c == ' ') = false ∧ Quoting.endsLine c = true) ∨
      (kind c = 0 ∧ (c == ' ') = false ∧ Quoting.endsLine c = false) := by
  unfold kind
  cases hspace : c == ' ' <;> cases hend : Quoting.endsLine c <;> simp

theorem IsRun.kind_le {k : Nat} {run : List Char} (h : IsRun k run) : k = 0 ∨ k = 1 ∨ k = 2 := by
  obtain ⟨c, hc⟩ := List.exists_mem_of_ne_nil run h.1
  have := h.2 c hc
  rcases kind_cases c with hcase | hcase | hcase <;> omega

theorem IsRun.eq_spaces {run : List Char} (h : IsRun 1 run) :
    ∃ m, run = List.replicate (m + 1) ' ' := by
  have hall := List.eq_replicate_of_mem fun c hc => eq_space_of_kind (h.2 c hc)
  obtain ⟨m, hm⟩ := Nat.exists_eq_succ_of_ne_zero
    (Nat.ne_of_gt (List.length_pos_of_ne_nil h.1))
  exact ⟨m, hall.trans (by rw [hm])⟩

theorem singleRuns_spaces {run : List Char} (first : Bool) (hrun : IsRun 1 run) :
    f.singleRuns first p (run :: rs) = f.singleRuns false
      (if run.length == 1 && f.exceeds p 0 && !first && !rs.isEmpty then f.fold p else p.put run) rs := by
  have hspace : isRunOf (· == ' ') run = true := hrun.isRunOf_eq fun c hc => by
    rw [eq_space_of_kind hc]
    rfl
  rw [singleRuns, hspace]
  rfl

theorem singleRuns_breaks {run : List Char} (first : Bool) (hrun : IsRun 2 run) :
    f.singleRuns first p (run :: rs) = f.singleRuns false (f.breakRun p run) rs := by
  have hspace : isRunOf (· == ' ') run = false := hrun.isRunOf_eq fun c hc => by
    rcases kind_cases c with h | h | h <;> simp_all
  have hend : isRunOf Quoting.endsLine run = true := hrun.isRunOf_eq fun c hc => by
    rcases kind_cases c with h | h | h <;> simp_all
  rw [singleRuns, hspace, hend]
  rfl

theorem singleRuns_word {run : List Char} (first : Bool) (hrun : IsRun 0 run) :
    f.singleRuns first p (run :: rs) = f.singleRuns false (p.put (run.flatMap doubled)) rs := by
  have hspace : isRunOf (· == ' ') run = false := hrun.isRunOf_eq fun c hc => by
    rcases kind_cases c with h | h | h <;> simp_all
  have hend : isRunOf Quoting.endsLine run = false := hrun.isRunOf_eq fun c hc => by
    rcases kind_cases c with h | h | h <;> simp_all
  rw [singleRuns, hspace, hend]
  rfl

/-- The runs of a text between apostrophes are a writing of it. A line may be broken before them
only if it holds more than indentation. -/
theorem singleRuns_form (hf : f.indent = some ((n + 1 : Nat) : Int)) (first : Bool) (hrs : AreRuns rs)
    (hchars : ∀ run ∈ rs, ∀ c ∈ run, Quoting.isSpecial c = false ∧ c ≠ '\x85')
    (hp : p.fresh = true → n + 1 ≤ p.column ∧ ((∀ run ∈ rs.head?, IsRun 0 run) ∨ n + 1 < p.column)) :
    ∃ w, (f.singleRuns first p rs).written = w.reverse ++ p.written ∧
      QuotedForm false rs.flatten w ∧ ((∀ run ∈ rs.head?, IsRun 0 run) → Solid w) ∧
      (f.allowed = false → (∀ run ∈ rs, ¬ IsRun 2 run) →
        '\n' ∉ w ∧ w.length ≤ 2 * rs.flatten.length) := by
  induction rs generalizing p first with
  | nil =>
    exact ⟨[], rfl, .nil, fun _ => by rintro c ⟨⟩, fun _ _ => ⟨List.not_mem_nil, Nat.le_refl _⟩⟩
  | cons run rs ih =>
    have hrest := fun r hr => hchars r (List.mem_cons_of_mem _ hr)
    have hchars := hchars run List.mem_cons_self
    obtain ⟨k, hk⟩ := hrs.isRun run List.mem_cons_self
    rcases hk.kind_le with rfl | rfl | rfl
    · rw [singleRuns_word first hk]
      have hlength : 0 < (run.flatMap doubled).length := by
        obtain ⟨c, hc⟩ := List.exists_mem_of_ne_nil run hk.1
        exact List.length_pos_of_mem (List.mem_flatMap.mpr ⟨c, hc, mem_doubled c⟩)
      obtain ⟨w, hw, hform, _, hline⟩ := ih false hrs.tail hrest (p := p.put (run.flatMap doubled))
        fun hfresh => by
          have := (hp hfresh).1
          rw [Pen.column_put]
          exact ⟨by omega, .inr (by omega)⟩
      refine ⟨run.flatMap doubled ++ w, by rw [hw]; simp,
        quotedForm_doubled hform fun c hc => ⟨(hchars c hc).1, hk.2 c hc⟩,
        fun _ => solid_doubled hk (fun c hc => (hchars c hc).1) w, fun hallowed hno => ?_⟩
      obtain ⟨hnotMem, hle⟩ := hline hallowed fun r hr => hno r (List.mem_cons_of_mem _ hr)
      have hword := length_flatMap_doubled_le run
      constructor
      · rw [List.mem_append, not_or]
        exact ⟨lineFeed_notMem_doubled hk.2, hnotMem⟩
      · simp only [List.flatten_cons, List.length_append]
        omega
    · have hword := hrs.word_behind hk (by decide)
      have hnot : ¬ ∀ r ∈ (run :: rs).head?, IsRun 0 r := fun h =>
        absurd (hk.kind_unique (h run rfl)) (by decide)
      have htight : p.fresh = true → n + 1 < p.column := fun hfresh =>
        (hp hfresh).2.resolve_left hnot
      obtain ⟨m, rfl⟩ := hk.eq_spaces
      rw [singleRuns_spaces first hk]
      split
      · next hfold =>
        rw [fold_eq hf htight]
        obtain ⟨w, hw, hform, hsolid, _⟩ := ih false hrs.tail hrest
          (p := ⟨List.replicate (n + 1) ' ' ++ '\n' :: p.written, n + 1, true, true⟩)
          fun _ => ⟨Nat.le_refl _, .inl hword⟩
        obtain rfl : m = 0 := by
          simp only [Bool.and_eq_true, beq_iff_eq, List.length_replicate] at hfold
          omega
        have hlines : QuotedForm false (foldBreaks '\n' [] ++ rs.flatten)
            ('\n' :: [] ++ List.replicate (n + 1) ' ' ++ w) :=
          .lines rfl (fun b hb => (List.not_mem_nil hb).elim) (hsolid hword) hform
        refine ⟨_, by rw [hw]; simp, hlines, fun h => absurd h hnot, fun hallowed => ?_⟩
        simp [exceeds, hallowed] at hfold
      · obtain ⟨w, hw, hform, hsolid, hline⟩ := ih false hrs.tail hrest
          (p := p.put (List.replicate (m + 1) ' ')) fun hfresh => by
            have := htight hfresh
            rw [Pen.column_put]
            exact ⟨by omega, .inr (by omega)⟩
        refine ⟨List.replicate (m + 1) ' ' ++ w, by rw [hw]; simp, .spaces (hsolid hword) hform,
          fun h => absurd h hnot, fun hallowed hno => ?_⟩
        obtain ⟨hnotMem, hle⟩ := hline hallowed fun r hr => hno r (List.mem_cons_of_mem _ hr)
        constructor
        · simpa using hnotMem
        · simp only [List.flatten_cons, List.length_append]
          omega
    · have hword := hrs.word_behind hk (by decide)
      have hnot : ¬ ∀ r ∈ (run :: rs).head?, IsRun 0 r := fun h =>
        absurd (hk.kind_unique (h run rfl)) (by decide)
      have hend : ∀ c ∈ run, isLineEnd c = true := fun c hc =>
        isLineEnd_of_kind (hchars c hc).2 (hk.2 c hc)
      rw [singleRuns_breaks first hk, breakRun_eq hf hk.1]
      have hno : (∀ r ∈ run :: rs, ¬ IsRun 2 r) → False := fun hno => hno run List.mem_cons_self hk
      obtain ⟨w, hw, hform, hsolid, _⟩ := ih false hrs.tail hrest
        (p := ⟨List.replicate (n + 1) ' ' ++ (run.reverse ++
          if run.head? = some '\n' then '\n' :: p.written else p.written), n + 1, true, true⟩)
        fun _ => ⟨Nat.le_refl _, .inl hword⟩
      rw [hw]
      cases run with
      | nil => exact absurd rfl hk.1
      | cons b bs =>
        by_cases hb : b = '\n'
        · subst hb
          have hlines : QuotedForm false (foldBreaks '\n' ('\n' :: bs) ++ rs.flatten)
              ('\n' :: '\n' :: bs ++ List.replicate (n + 1) ' ' ++ w) :=
            .lines rfl hend (hsolid hword) hform
          exact ⟨_, by simp, hlines, fun h => absurd h hnot, fun _ h => (hno h).elim⟩
        · refine ⟨b :: bs ++ List.replicate (n + 1) ' ' ++ w, by simp [hb], ?_,
            fun h => absurd h hnot, fun _ h => (hno h).elim⟩
          have hfolded : foldBreaks b bs = b :: bs := if_pos (by simpa using hb)
          have hlines : QuotedForm false (foldBreaks b bs ++ rs.flatten) _ :=
            .lines (n := n) (hend b List.mem_cons_self)
              (fun c hc => hend c (List.mem_cons_of_mem _ hc)) (hsolid hword) hform
          rw [hfolded] at hlines
          exact hlines

/-- The space in front of an indicator or a scalar. -/
def lead (p : Pen) : List Char := if p.blank then [] else [' ']

theorem written_indicate (p : Pen) (indicator : List Char) (opens : Bool) :
    (p.indicate indicator opens).written = (lead p ++ indicator).reverse ++ p.written := by
  unfold Pen.indicate lead
  cases p.blank <;> simp

theorem isChain_and {R S : Char → Char → Prop} (hR : cs.IsChain R) (hS : cs.IsChain S) :
    cs.IsChain fun a b => R a b ∧ S a b := by
  induction hR with
  | nil => exact .nil
  | singleton a => exact .singleton a
  | cons_cons hab _ ih =>
    obtain ⟨hab', hS⟩ := List.isChain_cons_cons.mp hS
    exact .cons_cons ⟨hab, hab'⟩ (ih hS)

theorem kind_chain (hallowed : Quoting.allowsSingle cs = true) :
    cs.IsChain fun a b => kind a = kind b ∨ kind a = 0 ∨ kind b = 0 := by
  simp only [Quoting.allowsSingle, Bool.and_eq_true, Bool.not_eq_true', adjacent_eq_false_iff] at hallowed
  obtain ⟨⟨_, hspace⟩, hend⟩ := hallowed
  refine (isChain_and hspace hend).imp fun a b hab => ?_
  rcases kind_cases a with ha | ha | ha <;> rcases kind_cases b with hb | hb | hb <;> simp_all

/-- A text between apostrophes is written so that it can be read. -/
theorem single_form (hf : f.indent = some ((n + 1 : Nat) : Int)) (p : Pen)
    (hallowed : Quoting.allowsSingle cs = true) (hnext : '\x85' ∉ cs) :
    ∃ w, (f.single p cs).written = (lead p ++ '\'' :: (w ++ ['\''])).reverse ++ p.written ∧
      QuotedForm false cs w ∧
      (f.allowed = false → Quoting.isMultiline cs = false → '\n' ∉ w ∧ w.length ≤ 2 * cs.length) := by
  have hspecial : ∀ c ∈ cs, Quoting.isSpecial c = false := by
    simp only [Quoting.allowsSingle, Bool.and_eq_true, Bool.not_eq_true', List.any_eq_false] at hallowed
    exact fun c hc => Bool.eq_false_iff.mpr (hallowed.1.1 c hc)
  have hchars : ∀ run ∈ runs kind cs, ∀ c ∈ run, Quoting.isSpecial c = false ∧ c ≠ '\x85' := by
    intro run hrun c hc
    have hmem : c ∈ cs := by
      rw [← flatten_runs cs]
      exact List.mem_flatten.mpr ⟨run, hrun, hc⟩
    exact ⟨hspecial c hmem, fun heq => hnext (heq ▸ hmem)⟩
  obtain ⟨w, hw, hform, _, hline⟩ := singleRuns_form hf true (areRuns_runs (kind_chain hallowed)) hchars
    (p := p.indicate ['\'']) fun hfresh => by simp [Pen.indicate] at hfresh
  rw [flatten_runs] at hform hline
  refine ⟨w, ?_, hform, fun hallowed hmultiline => hline hallowed fun run hrun hends => ?_⟩
  · rw [single, Pen.written_attach, hw, written_indicate]
    simp
  · obtain ⟨c, hc⟩ := List.exists_mem_of_ne_nil run hends.1
    have hmem : c ∈ cs := by
      rw [← flatten_runs cs]
      exact List.mem_flatten.mpr ⟨run, hrun, hc⟩
    have hkind := hends.2 c hc
    have := List.any_eq_false.mp hmultiline c hmem
    rcases kind_cases c with h | h | h <;> simp_all

/-! ### Plain scalars -/

/-- Nothing in the text would be read as a key or a comment. -/
structure IsInert (cs : List Char) : Prop where
  special : ∀ c ∈ cs, Quoting.isSpecial c = false
  starts : Quoting.startsOther cs = false
  holds : Quoting.holdsOther cs = false

theorem holdsOther_append {a b : Char} {before after : List Char}
    (h : Quoting.holdsOther (before ++ a :: b :: after) = false) :
    (b == ':' && after.head?.all Quoting.separates) = false ∧
      (b == '#' && Quoting.separates a) = false := by
  induction before with
  | nil =>
    simp only [List.nil_append, Quoting.holdsOther, Bool.or_eq_false_iff] at h
    exact h.1
  | cons c before ih =>
    refine ih ?_
    cases before with
    | nil =>
      simp only [List.cons_append, List.nil_append, Quoting.holdsOther, Bool.or_eq_false_iff] at h ⊢
      exact h.2
    | cons d before =>
      simp only [List.cons_append, Quoting.holdsOther, Bool.or_eq_false_iff] at h ⊢
      exact h.2

/-- The words of an inert text. -/
theorem IsInert.isWord {before run after : List Char} (h : IsInert (before ++ (run ++ after)))
    (hrun : IsRun 0 run) (hbefore : ∀ c ∈ before.getLast?, c = ' ')
    (hafter : ∀ c ∈ after.head?, c = ' ') : IsWord run := by
  have hspecial : ∀ c ∈ run, Quoting.isSpecial c = false := fun c hc => h.special c (by simp [hc])
  have hseparated : after.head?.all Quoting.separates = true := by
    cases hhead : after.head? with
    | none => rfl
    | some c => rw [hafter c hhead]; decide
  refine ⟨hrun.1, fun c hc => solid_of_kind (hspecial c hc) (hrun.2 c hc), fun c hc => ?_,
    fun c hc => isReadable_of_not_isSpecial (hspecial c hc), ?_, ?_⟩
  · have hne (d : Char) (hd : Quoting.isSpecial d = true ∨ kind d ≠ 0) : c ≠ d := by
      rintro rfl
      rcases hd with hd | hd
      · exact absurd (hspecial c hc) (by rw [hd]; decide)
      · exact hd (hrun.2 c hc)
    simp [Cursor.isPrinted, hne '\n' (by decide), hne '\r' (by decide), hne byteOrderMark (by decide)]
  · intro hhead
    obtain ⟨r, rfl⟩ : ∃ r, run = '#' :: r := by
      cases run with
      | nil => cases hhead
      | cons c r => exact ⟨r, by rw [Option.some.inj hhead]⟩
    rcases List.eq_nil_or_concat before with rfl | ⟨front, c, rfl⟩
    · have := h.starts
      simp [Quoting.startsOther, Quoting.opensOther] at this
    · obtain rfl : c = ' ' := hbefore c (by simp)
      have hholds := h.holds
      rw [List.concat_eq_append, List.append_assoc] at hholds
      exact absurd (holdsOther_append hholds).2 (by decide)
  · intro hlast
    obtain ⟨r, rfl⟩ := List.getLast?_eq_some_iff.mp hlast
    have hcs : before ++ (r ++ [':'] ++ after) = (before ++ r) ++ ':' :: after := by simp
    rcases List.eq_nil_or_concat (before ++ r) with hnil | ⟨front, c, hfront⟩
    · have hstarts := h.starts
      rw [hcs, hnil] at hstarts
      simp [Quoting.startsOther, hseparated] at hstarts
    · have hholds := h.holds
      rw [hcs, hfront, List.concat_eq_append, List.append_assoc] at hholds
      have := (holdsOther_append hholds).1
      simp [hseparated] at this

/-- Every word among the runs of an inert text is a word of a plain scalar. -/
theorem IsInert.isWord_of_mem {before run : List Char} (h : IsInert (before ++ rs.flatten))
    (hrs : AreRuns rs) (hends : ∀ run ∈ rs, ¬ IsRun 2 run)
    (hbefore : (∀ c ∈ before.getLast?, c = ' ') ∨ ∀ run ∈ rs.head?, ¬ IsRun 0 run)
    (hmem : run ∈ rs) (hrun : IsRun 0 run) : IsWord run := by
  induction rs generalizing before with
  | nil => cases hmem
  | cons r rs ih =>
    have hspaces : ∀ q ∈ r :: rs, ¬ IsRun 0 q → ∀ c ∈ q, c = ' ' := by
      intro q hq hother c hc
      obtain ⟨k, hk⟩ := hrs.isRun q hq
      rcases hk.kind_le with rfl | rfl | rfl
      · exact absurd hk hother
      · exact eq_space_of_kind (hk.2 c hc)
      · exact absurd hk (hends q hq)
    rw [List.flatten_cons] at h
    rcases List.mem_cons.mp hmem with rfl | hmem
    · refine h.isWord hrun (hbefore.resolve_right fun hno => hno run rfl hrun) ?_
      intro c hc
      cases rs with
      | nil => cases hc
      | cons q rs =>
        have hq : ¬ IsRun 0 q := (List.isChain_cons_cons.mp hrs.isChain).1.mp hrun
        refine hspaces q (by simp) hq c ?_
        obtain ⟨k, hne, _⟩ := hrs.isRun q (by simp)
        cases q with
        | nil => exact absurd rfl hne
        | cons d q =>
          obtain rfl : d = c := by simpa using hc
          exact List.mem_cons_self
    · rw [← List.append_assoc] at h
      refine ih h hrs.tail (fun q hq => hends q (List.mem_cons_of_mem _ hq)) ?_ hmem
      by_cases hr : IsRun 0 r
      · refine .inr fun q hq => ?_
        exact ((List.isChain_cons.mp hrs.isChain).1 q hq).mp hr
      · refine .inl fun c hc => ?_
        obtain ⟨k, hne, _⟩ := hrs.isRun r List.mem_cons_self
        rw [List.getLast?_append_of_ne_nil _ hne] at hc
        exact hspaces r List.mem_cons_self hr c (List.mem_of_getLast? hc)

/-- The text fits on the line, or its lines may not be folded. -/
def Fits (f : Folding) (p : Pen) (length : Nat) : Prop :=
  f.allowed = false ∨ (p.column + length : Int) ≤ f.width

theorem Fits.not_exceeds {length : Nat} {more : Int} (h : f.Fits p length) (hmore : more ≤ length) :
    f.exceeds p more = false := by
  rcases h with h | h
  · rw [exceeds, h, Bool.false_and]
  · rw [exceeds, Bool.and_eq_false_iff, decide_eq_false_iff_not]
    exact .inr (by omega)

theorem Fits.put {length : Nat} {w : List Char} (h : f.Fits p (w.length + length)) :
    f.Fits (p.put w) length := by
  refine h.imp id fun h => ?_
  rw [Pen.column_put]
  omega

theorem plainRun_word {run : List Char} (hrun : IsRun 0 run) :
    f.plainRun p run =
      if f.exceeds p run.length && f.isIndented p then (f.fold p).put run else p.put run := by
  have hspace : isRunOf (· == ' ') run = false := hrun.isRunOf_eq fun c hc => by
    rcases kind_cases c with h | h | h <;> simp_all
  rw [plainRun, hspace]
  rfl

theorem plainRun_spaces {run : List Char} (hrun : IsRun 1 run) :
    f.plainRun p run =
      if run.length == 1 && f.exceeds p 0 then (f.fold p).inked else p.put run := by
  have hspace : isRunOf (· == ' ') run = true := hrun.isRunOf_eq fun c hc => by
    rw [eq_space_of_kind hc]
    rfl
  rw [plainRun, hspace]
  rfl

/-- A word goes to a new line if it does not fit. -/
theorem exists_plainRun_word {run : List Char} (hf : f.indent = some (n : Int)) (hrun : IsRun 0 run)
    (hp : p.fresh = true → n < p.column) :
    ∃ l, (f.plainRun p run).written = (l ++ run).reverse ++ p.written ∧
      (l = [] ∨ l = '\n' :: List.replicate n ' ' ∧ n < p.column ∧ ¬ f.Fits p run.length) ∧
      (f.Fits p run.length → f.plainRun p run = p.put run) ∧
      ((f.plainRun p run).fresh = true → n < (f.plainRun p run).column) := by
  rw [plainRun_word hrun]
  have hpos := List.length_pos_of_ne_nil hrun.1
  split
  · next hfold =>
    rw [Bool.and_eq_true, isIndented, hf] at hfold
    have hcolumn : n < p.column := by simpa using hfold.2
    have hnot : ¬ f.Fits p run.length := fun hfits =>
      absurd hfold.1 (by rw [hfits.not_exceeds (Int.le_refl _)]; decide)
    rw [fold_eq hf fun _ => hcolumn]
    refine ⟨'\n' :: List.replicate n ' ', by simp, .inr ⟨rfl, hcolumn, hnot⟩,
      fun hfits => absurd hfits hnot, fun _ => ?_⟩
    simp only [Pen.column_put]
    omega
  · refine ⟨[], by simp, .inl rfl, fun _ => rfl, fun hfresh => ?_⟩
    have := hp hfresh
    rw [Pen.column_put]
    omega

/-- The runs of a plain scalar are a writing of it, perhaps on a new line. A fold is read as one
space, so that none may stand beside a space. -/
theorem plainRuns_form (hf : f.indent = some (n : Int)) (hrs : AreRuns rs) (hne : rs ≠ [])
    (hfirst : ∀ run ∈ rs.head?, IsRun 0 run) (hlast : ∀ run ∈ rs.getLast?, IsRun 0 run)
    (hends : ∀ run ∈ rs, ¬ IsRun 2 run) (hwords : ∀ run ∈ rs, IsRun 0 run → IsWord run)
    (hkept : (∀ run ∈ rs, IsRun 1 run → run.length = 1) ∨ f.Fits p rs.flatten.length)
    (hp : p.fresh = true → n < p.column) :
    ∃ l w, (rs.foldl f.plainRun p).written = (l ++ w).reverse ++ p.written ∧
      PlainForm n rs.flatten w ∧
      (l = [] ∨ l = '\n' :: List.replicate n ' ' ∧ n < p.column ∧ ¬ f.Fits p rs.flatten.length) ∧
      (f.Fits p rs.flatten.length → w = rs.flatten) ∧
      ((rs.foldl f.plainRun p).fresh = true → n < (rs.foldl f.plainRun p).column) := by
  induction rs using List.twoStepInduction generalizing p with
  | nil => exact absurd rfl hne
  | singleton word =>
    have hword := hfirst word rfl
    obtain ⟨l, hwritten, hl, _, hfresh⟩ := exists_plainRun_word hf hword hp
    have hflatten : [word].flatten = word := by simp
    rw [hflatten]
    exact ⟨l, word, hwritten, .word (hwords word List.mem_cons_self hword), hl, fun _ => rfl, hfresh⟩
  | cons_cons word gap rs ih _ =>
    have hword := hfirst word rfl
    have hgap : IsRun 1 gap := by
      obtain ⟨k, hk⟩ := hrs.isRun gap (by simp)
      rcases hk.kind_le with rfl | rfl | rfl
      · exact absurd hk ((List.isChain_cons_cons.mp hrs.isChain).1.mp hword)
      · exact hk
      · exact absurd hk (hends gap (by simp))
    have hrest : rs ≠ [] := by
      rintro rfl
      exact absurd (hgap.kind_unique (hlast gap rfl)) (by decide)
    obtain ⟨l, hwritten, hl, hput, hfresh⟩ := exists_plainRun_word hf hword hp
    have hlength : (word :: gap :: rs).flatten.length =
        word.length + (gap.length + rs.flatten.length) := by simp
    rw [hlength] at hkept ⊢
    -- what fits as a whole fits in parts, and nothing is folded
    have hfits : f.Fits p (word.length + (gap.length + rs.flatten.length)) →
        f.Fits (f.plainRun p word) (gap.length + rs.flatten.length) := fun h => by
      rw [hput (h.imp id fun h => by omega)]
      exact h.put
    have hl' : l = [] ∨ l = '\n' :: List.replicate n ' ' ∧ n < p.column ∧
        ¬ f.Fits p (word.length + (gap.length + rs.flatten.length)) :=
      hl.imp id fun ⟨h, hcolumn, hnot⟩ =>
        ⟨h, hcolumn, fun hfits => hnot (hfits.imp id fun h => by omega)⟩
    have hsingle : (∀ run ∈ word :: gap :: rs, IsRun 1 run → run.length = 1) →
        ∀ run ∈ rs, IsRun 1 run → run.length = 1 := fun h run hrun => h run (by simp [hrun])
    have ih {p : Pen} := ih (p := p) hrs.tail.tail hrest (hrs.tail.word_behind hgap (by decide))
      (fun run hrun => hlast run (by rw [List.getLast?_cons_cons, List.getLast?_cons, hrun]; rfl))
      (fun run hrun => hends run (by simp [hrun])) (fun run hrun => hwords run (by simp [hrun]))
    have hwordForm := hwords word List.mem_cons_self hword
    obtain ⟨m, rfl⟩ := hgap.eq_spaces
    rw [List.foldl_cons, List.foldl_cons]
    generalize f.plainRun p word = q at *
    rw [plainRun_spaces hgap]
    split
    · next hfold =>
      rw [Bool.and_eq_true, beq_iff_eq, List.length_replicate] at hfold
      obtain rfl : m = 0 := by omega
      have hnot : ¬ f.Fits p (word.length + ((List.replicate (0 + 1) ' ').length + rs.flatten.length)) :=
        fun h => absurd hfold.2 (by rw [(hfits h).not_exceeds (by omega)]; decide)
      rw [fold_eq hf hfresh]
      obtain ⟨l', w, hw, hform, hl'', _, hfresh'⟩ := ih
        (p := Pen.inked ⟨List.replicate n ' ' ++ '\n' :: q.written, n, true, true⟩)
        (.inl (hsingle (hkept.resolve_right hnot))) (by simp)
      obtain rfl : l' = [] := hl''.resolve_right fun h => absurd h.2.1 (Nat.lt_irrefl n)
      refine ⟨l, word ++ (List.replicate 0 ' ' ++ '\n' :: List.replicate n ' ' ++ w), ?_, ?_, hl',
        fun h => absurd h hnot, hfresh'⟩
      · rw [hw]
        simp [hwritten]
      · exact .fold hwordForm (Nat.le_refl n) hform
    · next hfold =>
      obtain ⟨l', w, hw, hform, hl'', hline, hfresh'⟩ := ih (p := q.put (List.replicate (m + 1) ' '))
        (hkept.imp hsingle fun h => (hfits h).put) fun h => by
          have := hfresh h
          rw [Pen.column_put]
          omega
      rcases hl'' with rfl | ⟨rfl, _, hnot⟩
      · refine ⟨l, word ++ (List.replicate (m + 1) ' ' ++ w), ?_, .spaces hwordForm hform, hl',
          fun h => ?_, hfresh'⟩
        · rw [hw]
          simp [hwritten]
        · rw [hline (hfits h).put]
          rfl
      · have hnot' : ¬ f.Fits p
            (word.length + ((List.replicate (m + 1) ' ').length + rs.flatten.length)) :=
          fun h => hnot (hfits h).put
        obtain rfl : m = 0 := by
          have := hkept.resolve_right hnot' _ (List.mem_cons_of_mem _ List.mem_cons_self) hgap
          simpa using this
        refine ⟨l, word ++ (List.replicate 1 ' ' ++ '\n' :: List.replicate n ' ' ++ w), ?_,
          .fold hwordForm (Nat.le_refl n) hform, hl', fun h => absurd h hnot', hfresh'⟩
        rw [hw]
        simp [hwritten]

/-- A text is inert if it is written plain. -/
theorem isInert_of_allowsPlain (h : Quoting.allowsPlain cs = true) : IsInert cs := by
  simp only [Quoting.allowsPlain, Quoting.allowsSingle, Bool.and_eq_true, Bool.not_eq_true',
    List.any_eq_false] at h
  exact ⟨fun c hc => Bool.eq_false_iff.mpr (h.1.1.1.1.1.1.1 c hc), h.1.2, h.2⟩

/-- No two spaces stand side by side. -/
def IsSpaced (cs : List Char) : Prop := Quoting.adjacent (· == ' ') (· == ' ') cs = false

theorem length_of_isSpaced {run : List Char} (h : IsSpaced rs.flatten) (hmem : run ∈ rs)
    (hrun : IsRun 1 run) : run.length = 1 := by
  obtain ⟨m, rfl⟩ := hrun.eq_spaces
  obtain ⟨front, back, rfl⟩ := List.append_of_mem hmem
  have hchain := adjacent_eq_false_iff.mp h
  rw [List.flatten_append, List.flatten_cons] at hchain
  have hchain := (List.isChain_append.mp (List.isChain_append.mp hchain).2.1).1
  cases m with
  | zero => rfl
  | succ m => exact absurd ((List.isChain_cons_cons.mp hchain).1 rfl) (by decide)

theorem kind_of_head {c : Char} (hrs : AreRuns rs) (hc : rs.flatten.head? = some c) :
    ∀ run ∈ rs.head?, IsRun (kind c) run := by
  intro run hrun
  cases rs with
  | nil => cases hrun
  | cons r rs =>
    obtain rfl : r = run := by simpa using hrun
    obtain ⟨k, hk⟩ := hrs.isRun r List.mem_cons_self
    cases r with
    | nil => exact absurd rfl hk.1
    | cons d r =>
      obtain rfl : d = c := by simpa using hc
      exact (hk.2 d List.mem_cons_self) ▸ hk

theorem kind_of_getLast {c : Char} (hrs : AreRuns rs) (hc : rs.flatten.getLast? = some c) :
    ∀ run ∈ rs.getLast?, IsRun (kind c) run := by
  intro run hrun
  obtain ⟨front, rfl⟩ := List.getLast?_eq_some_iff.mp hrun
  obtain ⟨k, hk⟩ := hrs.isRun run (by simp)
  rw [List.flatten_concat, List.getLast?_append_of_ne_nil _ hk.1] at hc
  exact (hk.2 c (List.mem_of_getLast? hc)) ▸ hk

theorem kind_of_not_isGap {c : Char} (h : Quoting.isGap c = false) : kind c = 0 := by
  rw [Quoting.isGap, Bool.or_eq_false_iff] at h
  rcases kind_cases c with hc | hc | hc <;> simp_all

/-- A text without quotation marks is written so that it can be read. -/
theorem plain_form (hf : f.indent = some (n : Int)) (p : Pen) (hallowed : Quoting.allowsPlain cs = true)
    (hne : cs ≠ []) (hkept : IsSpaced cs ∨ f.Fits p ((lead p).length + cs.length)) :
    ∃ l w, (f.plain p cs).written = (lead p ++ (l ++ w)).reverse ++ p.written ∧ PlainForm n cs w ∧
      (l = [] ∨ l = '\n' :: List.replicate n ' ') ∧
      (f.Fits p ((lead p).length + cs.length) → l = [] ∧ w = cs) ∧
      ((f.plain p cs).fresh = true → n < (f.plain p cs).column) := by
  have hinert := isInert_of_allowsPlain hallowed
  simp only [Quoting.allowsPlain, Bool.and_eq_true, Bool.not_eq_true'] at hallowed
  obtain ⟨⟨⟨⟨⟨hsingle, hmultiline⟩, hhead⟩, hlast⟩, _⟩, _⟩ := hallowed
  have hrs := areRuns_runs (kind_chain hsingle)
  have hflatten := flatten_runs cs
  have hrunsNe : runs kind cs ≠ [] := by
    intro hnil
    rw [hnil] at hflatten
    exact hne hflatten.symm
  have hends : ∀ run ∈ runs kind cs, ¬ IsRun 2 run := by
    intro run hrun hkind
    obtain ⟨c, hc⟩ := List.exists_mem_of_ne_nil run hkind.1
    have hmem : c ∈ cs := by
      rw [← hflatten]
      exact List.mem_flatten.mpr ⟨run, hrun, hc⟩
    have hnot := List.any_eq_false.mp hmultiline c hmem
    have := hkind.2 c hc
    rcases kind_cases c with h | h | h <;> simp_all
  have hfirstRun : ∀ run ∈ (runs kind cs).head?, IsRun 0 run := by
    obtain ⟨c, rest, rfl⟩ := List.exists_cons_of_ne_nil hne
    rw [← kind_of_not_isGap (by simpa using hhead)]
    exact kind_of_head hrs (by rw [hflatten]; rfl)
  have hlastRun : ∀ run ∈ (runs kind cs).getLast?, IsRun 0 run := by
    obtain ⟨front, c, rfl⟩ := (List.eq_nil_or_concat' cs).resolve_left hne
    rw [← kind_of_not_isGap (by simpa using hlast)]
    exact kind_of_getLast hrs (by rw [hflatten]; simp)
  have hinert' : IsInert ([] ++ (runs kind cs).flatten) := by rwa [List.nil_append, hflatten]
  have hwords : ∀ run ∈ runs kind cs, IsRun 0 run → IsWord run := fun run hmem hrun =>
    hinert'.isWord_of_mem hrs hends (.inl (by rintro c ⟨⟩)) hmem hrun
  have hplain : f.plain p cs = (runs kind cs).foldl f.plainRun (p.put (lead p)).inked := by
    unfold plain lead
    rw [if_neg (by simpa using hne)]
    cases p.blank <;> rfl
  have hput : f.Fits p ((lead p).length + cs.length) →
      f.Fits (p.put (lead p)).inked (runs kind cs).flatten.length := fun h => by
    rw [hflatten]
    exact h.put
  obtain ⟨l, w, hw, hform, hl, hline, hfresh⟩ := plainRuns_form hf hrs hrunsNe hfirstRun hlastRun hends
    hwords (p := (p.put (lead p)).inked)
    (hkept.imp (fun h run => length_of_isSpaced (by rwa [hflatten])) hput) (by simp)
  rw [hflatten] at hform
  rw [hplain]
  refine ⟨l, w, by rw [hw]; simp, hform, hl.imp id And.left, fun h => ⟨?_, ?_⟩, hfresh⟩
  · exact hl.resolve_right fun hl => hl.2.2 (hput h)
  · rw [hline (hput h), hflatten]

/-! ### Escapes -/

theorem hexValue?_toUpper {d : Nat} (hd : d < 16) :
    Text.hexValue? (Nat.digitChar d).toUpper = some d := by
  have hall : ∀ d < 16, Text.hexValue? (Nat.digitChar d).toUpper = some d := by decide
  exact hall d hd

/-- The number that hexadecimal digits stand for. -/
def hexNumber (ds : List Char) : Nat := ds.foldl (fun v d => 16 * v + (Text.hexValue? d).getD 0) 0

theorem hexNumber_concat (ds : List Char) (d : Char) :
    hexNumber (ds ++ [d]) = 16 * hexNumber ds + (Text.hexValue? d).getD 0 := by
  rw [hexNumber, List.foldl_append]
  rfl

theorem toDigits_sixteen (m : Nat) :
    hexNumber ((Nat.toDigits 16 m).map Char.toUpper) = m ∧
      ∀ d ∈ (Nat.toDigits 16 m).map Char.toUpper, (Text.hexValue? d).isSome = true := by
  induction m using Nat.strongRecOn with
  | ind m ih =>
    rw [Nat.toDigits_eq_if (by decide)]
    split
    · next hlt =>
      have hvalue := hexValue?_toUpper hlt
      simp [hexNumber, hvalue]
    · next hge =>
      have hvalue := hexValue?_toUpper (Nat.mod_lt m (by decide : 0 < 16))
      obtain ⟨hnumber, hdigits⟩ := ih (m / 16) (by omega)
      rw [List.map_append, List.map_singleton, hexNumber_concat, hnumber, hvalue]
      constructor
      · simp only [Option.getD_some]
        omega
      · intro d hd
        rcases List.mem_append.mp hd with hd | hd
        · exact hdigits d hd
        · rw [List.mem_singleton.mp hd, hvalue]
          rfl

theorem hexDigits_spec {width m : Nat} (hwidth : 0 < width) (hm : m < 16 ^ width) :
    (hexDigits width m).length = width ∧ hexNumber (hexDigits width m) = m ∧
      ∀ d ∈ hexDigits width m, (Text.hexValue? d).isSome = true := by
  have hle := (Nat.length_toDigits_le_iff (by decide) hwidth).mpr hm
  obtain ⟨hnumber, hdigits⟩ := toDigits_sixteen m
  have hzero : Char.toUpper '0' = '0' := by decide
  have hzeros (k : Nat) (ds : List Char) : hexNumber (List.replicate k '0' ++ ds) = hexNumber ds := by
    induction k with
    | zero => rfl
    | succ k ih => exact ih
  rw [hexDigits, Text.hexDigits, List.map_append, List.map_replicate, hzero]
  refine ⟨by simp; omega, by rw [hzeros, hnumber], fun d hd => ?_⟩
  rcases List.mem_append.mp hd with hd | hd
  · rw [List.eq_of_mem_replicate hd]
    decide
  · exact hdigits d hd

/-- The escape of a character stands for it. -/
theorem isEscape_escapeOf (c : Char) : IsEscape c (escapeOf c) := by
  have hletters : ∀ e ∈ escapeLetters, simpleEscape? e.2 = some e.1 := by decide
  have hnumber {x : Char} {width : Nat} (hx : escapeDigits? x = some width) (hwidth : 0 < width)
      (hlt : c.toNat < 16 ^ width) : IsEscape c ('\\' :: x :: hexDigits width c.toNat) := by
    obtain ⟨hlength, hvalue, hdigits⟩ := hexDigits_spec hwidth hlt
    exact .number hx hlength hdigits hvalue
  unfold escapeOf
  split
  · next letter hlookup =>
    obtain ⟨front, back, heq, _⟩ := List.lookup_eq_some_iff.mp hlookup
    exact .simple (hletters _ (heq ▸ List.mem_append_right _ List.mem_cons_self))
  · dsimp only
    split
    · next hlt => exact hnumber rfl (by decide) hlt
    · split
      · next hlt => exact hnumber rfl (by decide) hlt
      · refine hnumber rfl (by decide) ?_
        rcases c.valid with hlow | ⟨_, hhigh⟩
        · exact Nat.lt_trans hlow (by decide)
        · exact Nat.lt_trans hhigh (by decide)

theorem length_escapeOf_le {c : Char} (h : isEscaped c = true) : (escapeOf c).length ≤ 6 := by
  unfold escapeOf
  split
  · exact (by decide : 2 ≤ 6)
  · next hlookup =>
    dsimp only
    split
    · next hlt =>
      rw [List.length_cons, List.length_cons, (hexDigits_spec (by decide) hlt).1]
      decide
    · split
      · next hlt => rw [List.length_cons, List.length_cons, (hexDigits_spec (by decide) hlt).1]
      · next hge =>
        have hwide : Quoting.isSpecial c = false := by
          simp only [Quoting.isSpecial, Quoting.isWide]
          have : 0x10000 ≤ c.toNat := by omega
          simp [this]
        have hletter : escapeLetters.lookup c ≠ none := by
          simp only [isEscaped, Quoting.endsLine, hwide, Bool.or_false, Bool.or_eq_true,
            beq_iff_eq] at h
          rcases h with (rfl | rfl) | ((rfl | rfl) | rfl) | rfl <;> decide
        exact absurd hlookup hletter

theorem exists_cons_of_isEscape {c : Char} {e : List Char} (h : IsEscape c e) :
    ∃ r, e = '\\' :: r := by
  cases h <;> exact ⟨_, rfl⟩

theorem lineFeed_notMem_escape {c : Char} {e : List Char} (h : IsEscape c e) : '\n' ∉ e := by
  intro hmem
  cases h with
  | simple hx =>
    rcases List.mem_cons.mp hmem with heq | hmem
    · exact absurd heq (by decide)
    · rw [← List.mem_singleton.mp hmem] at hx
      cases hx
  | number hx _ hds _ =>
    rcases List.mem_cons.mp hmem with heq | hmem
    · exact absurd heq (by decide)
    · rcases List.mem_cons.mp hmem with rfl | hmem
      · cases hx
      · exact absurd (hds _ hmem) (by decide)

/-! ### Scalars between double quotes -/

/-- A character between double quotes. -/
def escaped (c : Char) : List Char := if isEscaped c then escapeOf c else [c]

theorem not_isEscaped_cases {c : Char} (h : isEscaped c = false) :
    c = ' ' ∨ c = '\'' ∨ isQuotedText c = true ∧ isReadable c = true := by
  simp only [isEscaped, Bool.or_eq_false_iff, beq_eq_false_iff_ne] at h
  obtain ⟨⟨⟨hquote, hslash⟩, hend⟩, hspecial⟩ := h
  by_cases hspace : c = ' '
  · exact .inl hspace
  · have hkind : kind c = 0 := by
      rcases kind_cases c with hc | hc | hc <;> simp_all
    rcases isQuotedText_of_kind hspecial hkind with htext | hmark | hmark | hmark
    · exact .inr (.inr htext)
    · exact .inr (.inl hmark)
    · exact absurd hmark hquote
    · exact absurd hmark hslash

theorem solid_of_isQuotedText {c : Char} (h : isQuotedText c = true) :
    isSpaceOrTab c = false ∧ isBreakOrEnd c = false := by
  simp only [isQuotedText, Bool.not_eq_true', Bool.or_eq_false_iff] at h
  exact ⟨by simp [isSpaceOrTab, h], h.2⟩

theorem isLineEnd_eq_false {c : Char} (h : isBreakOrEnd c = false) : isLineEnd c = false := by
  simp only [isBreakOrEnd, isBreak, Bool.or_eq_false_iff] at h
  simp [isLineEnd, h]

theorem solid_cons {c : Char} {w : List Char} (h : isSpaceOrTab c = false ∧ isBreakOrEnd c = false) :
    Solid (c :: w) := by
  intro d hd
  obtain rfl : c = d := by simpa using hd
  exact h

/-- What a space comes before is not the end of a line. -/
theorem quotedForm_space {double : Bool} {t w : List Char} (h : QuotedForm double t w)
    (hw : ∀ c ∈ w.head?, isLineEnd c = false) : QuotedForm double (' ' :: t) (' ' :: w) := by
  have hone (hsolid : Solid w) : QuotedForm double (' ' :: t) (' ' :: w) := .spaces (n := 0) hsolid h
  cases h with
  | nil => exact hone (by rintro c ⟨⟩)
  | char hc _ _ => exact hone (solid_cons (solid_of_isQuotedText hc))
  | mark hc _ =>
    refine hone (solid_cons ?_)
    cases double with
    | true => rw [if_pos rfl] at hc; rw [hc]; decide
    | false => rcases hc with rfl | rfl <;> decide
  | apostrophe _ _ => exact hone (solid_cons (by decide))
  | escape _ he _ => cases he <;> exact hone (solid_cons (by decide))
  | @spaces m _ _ hsolid h => exact .spaces (n := m + 1) hsolid h
  | lines hb _ _ _ => exact absurd (hw _ rfl) (by rw [hb]; decide)
  | split _ _ _ => exact hone (solid_cons (by decide))

/-- Characters that need no escape are written before others as they are. -/
theorem quotedForm_verbatim {u t w : List Char} (hu : ∀ c ∈ u, isEscaped c = false)
    (hchain : (u ++ t).IsChain fun a b => a = ' ' → b ≠ ' ') (h : QuotedForm true t w)
    (hsolid : t.head? ≠ some ' ' → Solid w) :
    QuotedForm true (u ++ t) (u ++ w) ∧ ((u ++ t).head? ≠ some ' ' → Solid (u ++ w)) := by
  induction u with
  | nil => exact ⟨h, hsolid⟩
  | cons c u ih =>
    obtain ⟨hform, hsolid'⟩ := ih (fun d hd => hu d (List.mem_cons_of_mem _ hd)) hchain.of_cons
    rcases not_isEscaped_cases (hu c List.mem_cons_self) with rfl | rfl | hc
    · have hnext : (u ++ t).head? ≠ some ' ' := fun heq =>
        (List.isChain_cons.mp hchain).1 ' ' heq rfl rfl
      exact ⟨.spaces (n := 0) (hsolid' hnext) hform, fun hne => absurd rfl hne⟩
    · exact ⟨.mark rfl hform, fun _ => solid_cons (by decide)⟩
    · exact ⟨.char hc.1 hc.2 hform, fun _ => solid_cons (solid_of_isQuotedText hc.1)⟩

/-- No space stands behind a space or an escape. -/
def IsEscapeSpaced (cs : List Char) : Prop :=
  Quoting.adjacent (fun c => c == ' ' || isEscaped c) (· == ' ') cs = false

/-- The characters between double quotes are a writing of the text, if no space of it stands behind
another one or an escape. -/
theorem doubleFrom_form (hf : f.indent = some ((n + 1 : Nat) : Int)) (first : Bool)
    (pending : List Char) (hpending : ∀ c ∈ pending, isEscaped c = false)
    (hspaced : IsEscapeSpaced (pending.reverse ++ cs)) (hp : p.fresh = false) :
    ∃ w, (f.doubleFrom first pending p cs).written = w.reverse ++ p.written ∧
      QuotedForm true (pending.reverse ++ cs) w ∧
      ((pending.reverse ++ cs).head? ≠ some ' ' → Solid w) := by
  have hchain {u : List Char} (h : IsEscapeSpaced u) : u.IsChain fun a b => a = ' ' → b ≠ ' ' :=
    (adjacent_eq_false_iff.mp h).imp fun a b hab ha => by simpa [ha] using hab
  have hu : ∀ c ∈ pending.reverse, isEscaped c = false := fun c hc => hpending c (List.mem_reverse.mp hc)
  induction cs generalizing p pending first with
  | nil =>
    obtain ⟨hform, hsolid⟩ := quotedForm_verbatim hu (hchain hspaced) .nil
      fun _ => by rintro c ⟨⟩
    exact ⟨pending.reverse, by simp [doubleFrom], by simpa using hform, by simpa using hsolid⟩
  | cons c rest ih =>
    have hback := (List.isChain_append.mp (adjacent_eq_false_iff.mp hspaced)).2.1
    have hrest : IsEscapeSpaced ([].reverse ++ rest) := adjacent_eq_false_iff.mpr hback.of_cons
    have hnext (hc : (c == ' ' || isEscaped c) = true) : rest.head? ≠ some ' ' := fun heq =>
      absurd ((List.isChain_cons.mp hback).1 ' ' heq hc) (by decide)
    have hverbatim {w : List Char} (hform : QuotedForm true (c :: rest) w)
        (hsolid : (c :: rest).head? ≠ some ' ' → Solid w) :=
      quotedForm_verbatim hu (hchain hspaced) hform hsolid
    rw [doubleFrom]
    cases hc : isEscaped c with
    | true =>
      have hne : (c == ' ') = false := by
        rw [beq_eq_false_iff_ne]
        rintro rfl
        exact absurd hc (by decide)
      have hnext := hnext (by rw [hc, Bool.or_true])
      have hescape := isEscape_escapeOf c
      have hsolidEscape (w : List Char) : Solid (escapeOf c ++ w) := by
        obtain ⟨r, hr⟩ := exists_cons_of_isEscape hescape
        rw [hr]
        exact solid_cons (by decide)
      simp only [if_true, hne, Bool.false_and, Bool.false_eq_true, if_false, Bool.or_false,
        Bool.not_false, Bool.and_true, beq_iff_eq, hnext]
      split
      · rw [fold_eq hf (by simp [hp])]
        obtain ⟨w, hw, hform, hsolid⟩ := ih false [] (by simp) hrest
          (p := Pen.inked ⟨List.replicate (n + 1) ' ' ++ '\n' ::
            (((p.put pending.reverse).put (escapeOf c)).put ([].reverse ++ ['\\'])).written, n + 1,
              true, true⟩) rfl (by simp)
        refine ⟨pending.reverse ++ (escapeOf c ++ ('\\' :: '\n' :: List.replicate (n + 1) ' ' ++ w)),
          by rw [hw]; simp, hverbatim ?_ fun _ => hsolidEscape _⟩
        exact .escape rfl hescape (.split rfl (hsolid hnext) hform)
      · obtain ⟨w, hw, hform, _⟩ := ih false [] (by simp) hrest
          (p := (p.put pending.reverse).put (escapeOf c)) hp (by simp)
        exact ⟨pending.reverse ++ (escapeOf c ++ w), by rw [hw]; simp,
          hverbatim (.escape rfl hescape hform) fun _ => hsolidEscape _⟩
    | false =>
      have hu' : ∀ d ∈ c :: pending, isEscaped d = false := List.forall_mem_cons.mpr ⟨hc, hpending⟩
      simp only [Bool.false_eq_true, if_false, Bool.false_or]
      split
      · next hfold =>
        by_cases hspace : c = ' '
        · subst hspace
          have hnext := hnext rfl
          have hnotSpace : (rest.head? != some ' ') = true := bne_iff_ne.mpr hnext
          simp only [beq_self_eq_true, Bool.true_and, hnotSpace, if_true, Bool.not_true,
            Bool.false_eq_true, if_false, List.append_nil]
          rw [fold_eq hf (by simp [hp])]
          obtain ⟨w, hw, hform, hsolid⟩ := ih false [] (by simp) hrest
            (p := Pen.inked ⟨List.replicate (n + 1) ' ' ++ '\n' :: (p.put pending.reverse).written,
              n + 1, true, true⟩) rfl (by simp)
          have hlines : QuotedForm true (foldBreaks '\n' [] ++ rest)
              ('\n' :: [] ++ List.replicate (n + 1) ' ' ++ w) :=
            .lines rfl (fun b hb => (List.not_mem_nil hb).elim) (hsolid hnext) hform
          exact ⟨pending.reverse ++ ('\n' :: [] ++ List.replicate (n + 1) ' ' ++ w), by rw [hw]; simp,
            hverbatim hlines fun hne => absurd rfl hne⟩
        · have hspace' : (c == ' ') = false := by simpa using hspace
          have hsome : (some c == some ' ') = false := by simpa using hspace
          obtain rfl : pending = [] := by
            simp only [hspace', Bool.false_or, Bool.and_eq_true, List.isEmpty_iff] at hfold
            exact hfold.1.2
          simp only [hspace', Bool.false_and, Bool.false_eq_true, if_false, hsome]
          rw [fold_eq hf (by simp [hp])]
          obtain ⟨w, hw, hform, hsolid⟩ := ih false [c] hu' (by simpa using hspaced)
            (p := Pen.inked ⟨List.replicate (n + 1) ' ' ++ '\n' ::
              (p.put ([].reverse ++ ['\\'])).written, n + 1, true, true⟩) rfl (by simpa using hc)
          refine ⟨'\\' :: '\n' :: List.replicate (n + 1) ' ' ++ w, by rw [hw]; simp,
            .split rfl (hsolid ?_) (by simpa using hform), fun _ => solid_cons (by decide)⟩
          simpa using hspace
      · obtain ⟨w, hw, hform⟩ := ih false (c :: pending) hu' (by simpa using hspaced) hp
          fun d hd => hu' d (List.mem_reverse.mp hd)
        exact ⟨w, hw, by simpa using hform⟩

/-- What fits is not folded. -/
theorem doubleFrom_of_fits (first : Bool) (pending : List Char)
    (hpending : ∀ c ∈ pending, isEscaped c = false)
    (hfits : f.Fits p (pending.length + (cs.flatMap escaped).length)) :
    (f.doubleFrom first pending p cs).written =
      (pending.reverse ++ cs.flatMap escaped).reverse ++ p.written := by
  induction cs generalizing p pending first with
  | nil => simp [doubleFrom]
  | cons c rest ih =>
    rw [List.flatMap_cons, List.length_append] at hfits
    rw [doubleFrom, List.flatMap_cons]
    cases hc : isEscaped c with
    | true =>
      have hescaped : escaped c = escapeOf c := by rw [escaped, hc, if_pos rfl]
      have hput : f.Fits ((p.put pending.reverse).put (escapeOf c)) (0 + (rest.flatMap escaped).length) := by
        rw [hescaped] at hfits
        rw [Nat.zero_add]
        exact Fits.put (Fits.put (by rwa [List.length_reverse]))
      simp only [if_true, hput.not_exceeds (by omega : (-1 : Int) ≤ _), Bool.and_false,
        Bool.false_eq_true, if_false]
      rw [ih false [] (by simp) hput, hescaped]
      simp
    | false =>
      have hescaped : escaped c = [c] := by rw [escaped, hc, if_neg (by decide)]
      have hnot : f.exceeds p pending.length = false := hfits.not_exceeds (by omega)
      simp only [Bool.false_eq_true, if_false, hnot, Bool.and_false]
      rw [hescaped] at hfits ⊢
      rw [ih false (c :: pending) (List.forall_mem_cons.mpr ⟨hc, hpending⟩)
        (hfits.imp id fun h => by simp at h ⊢; omega)]
      simp

theorem quotedForm_escaped (cs : List Char) :
    QuotedForm true cs (cs.flatMap escaped) ∧ '\n' ∉ cs.flatMap escaped ∧
      (cs.flatMap escaped).length ≤ 6 * cs.length ∧
      ∀ d ∈ (cs.flatMap escaped).head?, isLineEnd d = false := by
  induction cs with
  | nil => exact ⟨.nil, List.not_mem_nil, Nat.le_refl _, by rintro c ⟨⟩⟩
  | cons c rest ih =>
    obtain ⟨hform, hnotMem, hle, hhead⟩ := ih
    rw [List.flatMap_cons, List.length_append, List.length_cons, List.mem_append, not_or]
    cases hc : isEscaped c with
    | true =>
      have hescaped : escaped c = escapeOf c := by rw [escaped, hc, if_pos rfl]
      have := length_escapeOf_le hc
      rw [hescaped]
      refine ⟨.escape rfl (isEscape_escapeOf c) hform,
        ⟨lineFeed_notMem_escape (isEscape_escapeOf c), hnotMem⟩, by omega, fun d hd => ?_⟩
      obtain ⟨r, hr⟩ := exists_cons_of_isEscape (isEscape_escapeOf c)
      obtain rfl : '\\' = d := by simpa [hr] using hd
      decide
    | false =>
      have hescaped : escaped c = [c] := by rw [escaped, hc, if_neg (by decide)]
      have hfeed : '\n' ∉ [c] := by
        rw [List.mem_singleton]
        rintro rfl
        exact absurd hc (by decide)
      rw [hescaped, List.length_singleton]
      refine ⟨?_, ⟨hfeed, hnotMem⟩, by omega, fun d hd => ?_⟩
      · rcases not_isEscaped_cases hc with rfl | rfl | htext
        · exact quotedForm_space hform hhead
        · exact .mark rfl hform
        · exact .char htext.1 htext.2 hform
      · obtain rfl : c = d := by simpa using hd
        rcases not_isEscaped_cases hc with rfl | rfl | htext
        · decide
        · decide
        · exact (isLineEnd_eq_false (solid_of_isQuotedText htext.1).2)

/-- A text between double quotes is written so that it can be read. -/
theorem double_form (hf : f.indent = some ((n + 1 : Nat) : Int)) (p : Pen)
    (hkept : IsEscapeSpaced cs ∨
      f.Fits p ((lead p).length + 1 + (cs.flatMap escaped).length)) :
    ∃ w, (f.double p cs).written = (lead p ++ '"' :: (w ++ ['"'])).reverse ++ p.written ∧
      QuotedForm true cs w ∧ (f.allowed = false → '\n' ∉ w ∧ w.length ≤ 6 * cs.length) := by
  have hfresh : (p.indicate ['"']).fresh = false := by simp [Pen.indicate]
  have hcolumn : (p.indicate ['"']).column = p.column + ((lead p).length + 1) := by
    unfold Pen.indicate lead
    cases p.blank <;> simp
  have hdouble {w : List Char} (hw : (f.doubleFrom true [] (p.indicate ['"']) cs).written =
      w.reverse ++ (p.indicate ['"']).written) :
      (f.double p cs).written = (lead p ++ '"' :: (w ++ ['"'])).reverse ++ p.written := by
    rw [double, Pen.written_attach, hw, written_indicate]
    simp
  by_cases hfits : f.Fits p ((lead p).length + 1 + (cs.flatMap escaped).length)
  · obtain ⟨hform, hnotMem, hle, _⟩ := quotedForm_escaped cs
    have hput : f.Fits (p.indicate ['"']) ((0 : Nat) + (cs.flatMap escaped).length) :=
      hfits.imp id fun h => by rw [hcolumn]; omega
    exact ⟨cs.flatMap escaped, hdouble (doubleFrom_of_fits true [] (by simp) hput), hform,
      fun _ => ⟨hnotMem, hle⟩⟩
  · obtain ⟨w, hw, hform, _⟩ := doubleFrom_form hf true [] (by simp) (hkept.resolve_right hfits) hfresh
    exact ⟨w, hdouble hw, hform, fun hallowed => absurd (.inl hallowed) hfits⟩

end Folding

end BusinessModel.Yaml
