import BusinessModel.Proofs.Yaml.Datum
import BusinessModel.Proofs.Yaml.Folding
import BusinessModel.Proofs.Yaml.Layout
import Mathlib.Data.List.Basic

/-!
What is written for content is a layout of its tokens, as long as each text is kept where it is folded.
-/

namespace BusinessModel.Yaml

/-! ### Pens -/

namespace Pen

/-- The pen stands behind an indicator. If a collection may start on its line, the column is given. -/
structure At (p : Pen) (here : Option Nat) : Prop where
  blank : p.blank = false
  fresh : p.fresh = here.isSome
  column : ∀ column ∈ here, p.column = column

variable {p : Pen} {n k : Nat} {here : Option Nat}

/-- Behind an indicator, the first line of a collection starts on this line or on the next one. -/
theorem indentTo_at (h : p.At here) (hcolumn : ∀ column ∈ here, column ≤ n) :
    ∃ g, p.indentTo n = ⟨g.reverse ++ p.written, n, true, true⟩ ∧
      ∀ k, Lead (n + k) here (g ++ List.replicate k ' ') := by
  by_cases hstay : p.fresh = true ∧ p.column < n
  · obtain ⟨hfresh, hlt⟩ := hstay
    obtain ⟨column, rfl⟩ := Option.isSome_iff_exists.mp (h.fresh ▸ hfresh)
    obtain rfl := h.column column rfl
    refine ⟨List.replicate (n - p.column) ' ', ?_, fun k => ?_⟩
    · rw [indentTo_stay hfresh (.inl hlt), List.reverse_replicate]
    · rw [List.replicate_append_replicate, show n - p.column + k = n + k - p.column by omega]
      exact .here (by omega)
  · refine ⟨'\n' :: List.replicate n ' ', ?_, fun k => ?_⟩
    · rw [indentTo_break fun hfresh => ?_]
      · simp
      · obtain ⟨column, rfl⟩ := Option.isSome_iff_exists.mp (h.fresh ▸ hfresh)
        obtain rfl := h.column column rfl
        have := hcolumn p.column rfl
        exact .inr ⟨by simp only [hfresh, true_and] at hstay; omega, h.blank⟩
    · rw [List.cons_append, List.replicate_append_replicate]
      exact .below

end Pen

/-! ### Scalars -/

/-- The quotation marks can hold the text. -/
def Quoting.Allows (cs : List Char) : Quoting → Prop
  | .plain => Quoting.allowsPlain cs = true ∧ cs ≠ []
  | .single => Quoting.allowsSingle cs = true
  | .double => True

theorem Quoting.allows_ofText (asked : Option Quoting) (text : String) :
    (Quoting.ofText asked text).Allows text.toList := by
  have hquoted : (if Quoting.allowsSingle text.toList then Quoting.single else .double).Allows
      text.toList := by
    split
    · next h => exact h
    · trivial
  have hdefault : (if Tag.ofPlain .v12 text == .str && Quoting.allowsPlain text.toList then Quoting.plain
      else if text.toList.contains '\'' || text.toList.contains '\n' then .double
      else if Quoting.allowsSingle text.toList then .single else .double).Allows text.toList := by
    split
    · next h =>
      rw [Bool.and_eq_true, beq_iff_eq] at h
      refine ⟨h.2, fun hnil => ?_⟩
      obtain rfl : text = "" := String.toList_eq_nil_iff.mp hnil
      exact absurd h.1 (by decide)
    · split
      · trivial
      · exact hquoted
  cases asked with
  | none => exact hdefault
  | some asked => cases asked <;> first | exact hdefault | exact hquoted | trivial

namespace Folding

variable {f : Folding} {p : Pen} {n : Nat} {cs : List Char} {quoting : Quoting}

/-- Writing the text keeps it: no next line stands between apostrophes, and where a line may be folded
no space stands beside another one or, between double quotes, beside an escape. -/
def Keeps (f : Folding) (p : Pen) (cs : List Char) : Quoting → Prop
  | .plain => IsSpaced cs ∨ f.Fits p ((lead p).length + cs.length)
  | .single => '\x85' ∉ cs
  | .double => IsEscapeSpaced cs ∨ f.Fits p ((lead p).length + 1 + (cs.flatMap escaped).length)

/-- The text is kept wherever lines are folded: it holds no next line, and no space of it stands behind
another one or an escape. -/
structure IsKept (cs : List Char) : Prop where
  notMem : '\x85' ∉ cs
  isEscapeSpaced : IsEscapeSpaced cs

instance (cs : List Char) : Decidable (IsKept cs) :=
  decidable_of_iff ('\x85' ∉ cs ∧ Quoting.adjacent (fun c => c == ' ' || isEscaped c) (· == ' ') cs = false)
    ⟨fun h => ⟨h.1, h.2⟩, fun h => ⟨h.1, h.2⟩⟩

theorem IsKept.keeps (h : IsKept cs) (quoting : Quoting) : f.Keeps p cs quoting := by
  cases quoting with
  | plain =>
    refine .inl (adjacent_eq_false_iff.mpr ((adjacent_eq_false_iff.mp h.isEscapeSpaced).imp ?_))
    rintro a b hab ha
    exact hab (by simp [ha])
  | single => exact h.notMem
  | double => exact .inl h.isEscapeSpaced

/-- A scalar is written so that it can be read. -/
theorem write_form (hf : f.indent = some ((n + 1 : Nat) : Int)) (hallows : quoting.Allows cs)
    (hkeeps : f.Keeps p cs quoting) :
    ∃ l w, (f.write quoting p cs).written = (lead p ++ (l ++ w)).reverse ++ p.written ∧
      ScalarForm (n + 1) cs quoting.style w ∧ (l = [] ∨ l = '\n' :: List.replicate (n + 1) ' ') ∧
      (f.allowed = false → Quoting.isMultiline cs = false →
        l = [] ∧ '\n' ∉ w ∧ w.length ≤ 6 * cs.length + 2) ∧
      ((f.write quoting p cs).fresh = true → n + 1 < (f.write quoting p cs).column) := by
  cases quoting with
  | plain =>
    obtain ⟨l, w, hw, hform, hl, hline, hfresh⟩ := plain_form hf p hallows.1 hallows.2 hkeeps
    have hstarts := (isInert_of_allowsPlain hallows.1).starts
    refine ⟨l, w, hw, .plain hform hstarts, hl, fun hallowed hmultiline => ?_, hfresh⟩
    obtain ⟨rfl, rfl⟩ := hline (.inl hallowed)
    refine ⟨rfl, fun hmem => ?_, by omega⟩
    exact absurd (List.any_eq_false.mp hmultiline _ hmem) (by decide)
  | single =>
    obtain ⟨w, hw, hform, hline⟩ := single_form hf p hallows hkeeps
    refine ⟨[], '\'' :: (w ++ ['\'']), hw, .quoted hform, .inl rfl, fun hallowed hmultiline => ?_, ?_⟩
    · obtain ⟨hfeed, hlength⟩ := hline hallowed hmultiline
      exact ⟨rfl, by simp [hfeed], by simp; omega⟩
    · exact fun hfresh => absurd hfresh (by simp [write, single, Pen.attach, Pen.inked])
  | double =>
    obtain ⟨w, hw, hform, hline⟩ := double_form hf p hkeeps
    refine ⟨[], '"' :: (w ++ ['"']), hw, .quoted hform, .inl rfl, fun hallowed _ => ?_, ?_⟩
    · obtain ⟨hfeed, hlength⟩ := hline hallowed
      exact ⟨rfl, by simp [hfeed], by simp; omega⟩
    · exact fun hfresh => absurd hfresh (by simp [write, double, Pen.attach, Pen.inked])

end Folding

/-! ### Keeping content -/

namespace Format

/-- The folding of a scalar at a place in a collection. -/
def foldingAt (f : Format) (place : Place) (indent : Int) : Folding :=
  ⟨f.width, some (f.step place indent), true⟩

/-- The pen before a scalar at a place in a collection. -/
def penAt (f : Format) (place : Place) (indent : Int) (p : Pen) : Pen :=
  if place = .item then p.indentTo (f.step place indent) else p

/-- The folding of a key. -/
def keyFolding (f : Format) (indent : Int) (key : String) : Folding :=
  ⟨f.width, some (indent + f.entryStep), !isSimpleKey key⟩

/-- The pen before a key. -/
def keyPen (indent : Int) (p : Pen) (key : String) : Pen :=
  if isSimpleKey key then p.indentTo indent else (p.indentTo indent).indicate ['?'] true

/-- The pen behind a dash. -/
def dashPen (f : Format) (indent : Int) (p : Pen) : Pen :=
  (p.indentTo indent).indicate (List.replicate f.dashOffset.toNat ' ' ++ ['-']) true

mutual

/-- Writing content at a place keeps its texts. -/
def KeepsNode (f : Format) (place : Place) (indent : Int) (p : Pen) : Content → Prop
  | .scalar s => (f.foldingAt place indent).Keeps (f.penAt place indent p)
      (scalarText .value s).toList (f.quotingOf s)
  | .sequence items => f.KeepsItems (f.itemIndent place indent p) p items
  | .mapping entries => f.KeepsEntries (f.step place indent) p entries

/-- Writing the items of a sequence keeps their texts. -/
def KeepsItems (f : Format) (indent : Int) (p : Pen) : List Content → Prop
  | [] => True
  | c :: rest => f.KeepsNode .item indent (f.dashPen indent p) c ∧
      f.KeepsItems indent (f.node .item indent (f.dashPen indent p) c) rest

/-- Writing the entries of a mapping keeps their texts. -/
def KeepsEntries (f : Format) (indent : Int) (p : Pen) : List (String × Content) → Prop
  | [] => True
  | (k, c) :: rest => (f.keyFolding indent k).Keeps (keyPen indent p k) k.toList (.ofText none k) ∧
      f.KeepsNode .value indent (f.key indent p k) c ∧
        f.KeepsEntries indent (f.node .value indent (f.key indent p k) c) rest

end

mutual

/-- The tokens of content in a collection. -/
def tokens (f : Format) : Content → List TokenKind
  | .scalar s =>
    if s = .null then [] else [.scalar (scalarText .value s) (f.quotingOf s).style]
  | .sequence [] => [flowStart true, flowEnd true]
  | .mapping [] => [flowStart false, flowEnd false]
  | .sequence items => blockStart true :: f.itemTokens items ++ [.blockEnd]
  | .mapping entries => blockStart false :: f.entryTokens entries ++ [.blockEnd]

/-- The tokens of the items of a sequence. -/
def itemTokens (f : Format) : List Content → List TokenKind
  | [] => []
  | c :: rest => .blockEntry :: f.tokens c ++ f.itemTokens rest

/-- The tokens of the entries of a mapping. -/
def entryTokens (f : Format) : List (String × Content) → List TokenKind
  | [] => []
  | (k, c) :: rest => .key :: .scalar k (Quoting.ofText none k).style :: .value :: f.tokens c ++
      f.entryTokens rest

end

/-- Entries are indented by a number of columns, and so are dashes; items stand behind their dash. -/
structure Steps (f : Format) (k : Nat) : Prop where
  pos : 0 < k
  entryStep : f.entryStep = k
  itemStep : f.itemStep = k + 2
  dashOffset : f.dashOffset = k

end Format

end BusinessModel.Yaml

namespace BusinessModel

/-- All scalars in the content are written without loss. -/
inductive Content.IsExact : Content → Prop where
  | scalar {s : Scalar} (hs : s.IsExact) : IsExact (.scalar s)
  | sequence {items : List Content} (hitems : ∀ c ∈ items, c.IsExact) : IsExact (.sequence items)
  | mapping {entries : List (String × Content)} (hentries : ∀ e ∈ entries, e.2.IsExact) :
      IsExact (.mapping entries)

/-- The texts of the content are kept wherever lines are folded. -/
inductive Content.IsKept : Content → Prop where
  | scalar {s : Scalar} (hs : ∀ text, s = .str text → Yaml.Folding.IsKept text.toList) :
      IsKept (.scalar s)
  | sequence {items : List Content} (hitems : ∀ c ∈ items, c.IsKept) : IsKept (.sequence items)
  | mapping {entries : List (String × Content)}
      (hkeys : ∀ e ∈ entries, Yaml.Folding.IsKept e.1.toList) (hvalues : ∀ e ∈ entries, e.2.IsKept) :
      IsKept (.mapping entries)

namespace Yaml

theorem isKept_scalarText {s : Scalar} (hs : s.IsExact)
    (h : ∀ text, s = .str text → Folding.IsKept text.toList) :
    Folding.IsKept (scalarText .value s).toList := by
  cases s with
  | null => decide
  | bool b => cases b <;> decide
  | int n =>
    have hchars : ∀ c ∈ "-0123456789".toList, (c == ' ') = false ∧ c ≠ '\x85' :=
      List.forall_iff_forall_mem.mp (by decide)
    have hdigits : ∀ c ∈ (scalarText .value (.int n)).toList, (c == ' ') = false ∧ c ≠ '\x85' :=
      fun c hc => hchars c ((isNumeral_intText n).mem (toList_intText n ▸ hc))
    refine ⟨fun hmem => (hdigits _ hmem).2 rfl, adjacent_of_forall fun _ _ b hb => ?_⟩
    rw [(hdigits b hb).1, Bool.and_false]
  | float x => exact hs.elim
  | str text => exact h text rfl

namespace Format

variable {f : Format}

theorem keepsItems {items : List Content}
    (h : ∀ c ∈ items, ∀ (place : Place) (indent : Int) (p : Pen), f.KeepsNode place indent p c)
    (indent : Int) (p : Pen) : f.KeepsItems indent p items := by
  induction items generalizing p with
  | nil => trivial
  | cons c items ih =>
    obtain ⟨hc, hitems⟩ := List.forall_mem_cons.mp h
    exact ⟨hc _ _ _, ih hitems _⟩

theorem keepsEntries {entries : List (String × Content)}
    (hkeys : ∀ e ∈ entries, Folding.IsKept e.1.toList)
    (h : ∀ e ∈ entries, ∀ (place : Place) (indent : Int) (p : Pen), f.KeepsNode place indent p e.2)
    (indent : Int) (p : Pen) : f.KeepsEntries indent p entries := by
  induction entries generalizing p with
  | nil => trivial
  | cons e entries ih =>
    obtain ⟨hkey, hkeys⟩ := List.forall_mem_cons.mp hkeys
    obtain ⟨hc, hentries⟩ := List.forall_mem_cons.mp h
    exact ⟨hkey.keeps _, hc _ _ _, ih hkeys hentries _⟩

/-- In any format, texts are kept that are kept wherever lines are folded. -/
theorem keepsNode {c : Content} (hc : c.IsKept) (hexact : c.IsExact) (place : Place) (indent : Int)
    (p : Pen) : f.KeepsNode place indent p c := by
  induction hc generalizing place indent p with
  | scalar hs =>
    cases hexact with
    | scalar hexact => exact (isKept_scalarText hexact hs).keeps _
  | sequence _ ih =>
    cases hexact with
    | sequence hexact => exact keepsItems (fun c hc => ih c hc (hexact c hc)) _ p
  | mapping hkeys _ ih =>
    cases hexact with
    | mapping hexact => exact keepsEntries hkeys (fun e he => ih e he (hexact e he)) _ p

end Format

/-- The column of the collection around a place, when the indentation is `n` and a step is `k`. -/
def Place.outer (k n : Nat) (place : Place) : Nat := if place = .item then n + k else n

/-- The indentation inside a place. -/
def Place.inner (k n : Nat) (place : Place) : Nat := if place = .item then n + k + 2 else n + k

namespace Format

variable {f : Format} {k n : Nat} {p : Pen} {place : Place} {here : Option Nat}

theorem Steps.outer_lt (h : f.Steps k) : place.outer k n < place.inner k n := by
  have := h.pos
  unfold Place.outer Place.inner
  split <;> omega

theorem Steps.lt_inner (h : f.Steps k) : n < place.inner k n := by
  have := h.pos
  unfold Place.inner
  split <;> omega

theorem Steps.step_eq (h : f.Steps k) (hplace : place ≠ .root) :
    f.step place n = (place.inner k n : Nat) := by
  cases place with
  | root => exact absurd rfl hplace
  | item =>
    show (n : Int) + f.itemStep = ((n + k + 2 : Nat) : Int)
    rw [h.itemStep]
    omega
  | value =>
    show (n : Int) + f.entryStep = ((n + k : Nat) : Int)
    rw [h.entryStep]
    omega

/-- A pen at a place: a collection may start on its line only right behind the indicator, and always
behind a dash. -/
structure Ready (k n : Nat) (place : Place) (p : Pen) (here : Option Nat) : Prop where
  ne_root : place ≠ .root
  at_ : p.At here
  column : ∀ column ∈ here, column = place.outer k n + 1
  item : place = .item → here.isSome

/-- Content at a place is written in one of its layouts. -/
def NodeWrites (f : Format) (k : Nat) (c : Content) : Prop :=
  ∀ {place : Place} {n : Nat} {p : Pen} {here : Option Nat}, Ready k n place p here →
    f.KeepsNode place n p c → ∃ w, (f.node place n p c).written = w.reverse ++ p.written ∧
      NodeForm (place.outer k n) here (f.tokens c) w ∧
        ((f.node place n p c).fresh = true → n < (f.node place n p c).column)

/-! ### Scalars in collections -/

/-- A scalar is written behind one space. -/
theorem penAt_eq (hsteps : f.Steps k) (hready : Ready k n place p here) :
    ∃ j, (f.penAt place n p).written = List.replicate j ' ' ++ p.written ∧
      List.replicate j ' ' ++ Folding.lead (f.penAt place n p) = [' '] ∧
        ((f.penAt place n p).fresh = true → n < (f.penAt place n p).column) := by
  have hat := hready.at_
  by_cases hplace : place = .item
  · subst hplace
    have hfresh := hat.fresh.trans (hready.item rfl)
    obtain ⟨column, rfl⟩ := Option.isSome_iff_exists.mp (hready.item rfl)
    have hcolumn : p.column = n + k + 1 := (hat.column _ rfl).trans (hready.column _ rfl)
    have hstay : f.penAt .item n p = ⟨List.replicate 1 ' ' ++ p.written, n + k + 2, true, true⟩ := by
      unfold penAt
      rw [if_pos rfl, hsteps.step_eq hready.ne_root]
      show p.indentTo ((n + k + 2 : Nat) : Int) = _
      rw [Pen.indentTo_stay hfresh (.inl (by omega)), hcolumn, show n + k + 2 - (n + k + 1) = 1 by omega]
    rw [hstay]
    exact ⟨1, rfl, rfl, fun _ => by dsimp only; omega⟩
  · have hpen : f.penAt place n p = p := if_neg hplace
    rw [hpen]
    refine ⟨0, rfl, ?_, fun hfresh => ?_⟩
    · rw [Folding.lead, hat.blank]
      rfl
    · rw [hat.fresh] at hfresh
      obtain ⟨column, rfl⟩ := Option.isSome_iff_exists.mp hfresh
      rw [hat.column _ rfl, hready.column _ rfl, Place.outer, if_neg hplace]
      omega

theorem node_scalar (hplace : place ≠ .root) (s : Scalar) : f.node place n p (.scalar s) =
    (f.foldingAt place n).write (f.quotingOf s) (f.penAt place n p) (scalarText .value s).toList := by
  cases place with
  | root => exact absurd rfl hplace
  | item => cases s <;> rfl
  | value => cases s <;> rfl

theorem nodeWrites_scalar (hsteps : f.Steps k) {s : Scalar} (hs : s.IsExact) :
    f.NodeWrites k (.scalar s) := by
  intro place n p here hready hkeeps
  obtain ⟨j, hwritten, hlead, hcolumn⟩ := penAt_eq hsteps hready
  rw [node_scalar hready.ne_root]
  by_cases hnull : s = .null
  · subst hnull
    show ∃ w, (f.penAt place n p).written = _ ∧ _ ∧ ((f.penAt place n p).fresh = true → _)
    refine ⟨List.replicate j ' ', ?_, ?_, hcolumn⟩
    · rw [hwritten, List.reverse_replicate]
    · rw [tokens, if_pos rfl]
      exact .empty
  · have hallows : (f.quotingOf s).Allows (scalarText .value s).toList := by
      by_cases hstr : ∃ text, s = .str text
      · obtain ⟨text, rfl⟩ := hstr
        exact Quoting.allows_ofText _ text
      · have hstr : ∀ text, s ≠ .str text := fun text heq => hstr ⟨text, heq⟩
        have hplain := plain_of_isExact hs hstr hnull
        have hquoting : f.quotingOf s = .plain := by
          cases s with
          | str text => exact absurd rfl (hstr text)
          | _ => rfl
        rw [hquoting]
        exact ⟨hplain.1, hplain.2.1⟩
    have houter : place.outer k n + 1 ≤ place.inner k n := hsteps.outer_lt
    obtain ⟨m, hm⟩ := Nat.exists_eq_add_one_of_ne_zero (Nat.ne_of_gt (Nat.zero_lt_of_lt houter))
    rw [hm] at houter
    have hindent : (f.foldingAt place n).indent = some ((m + 1 : Nat) : Int) := by
      show some (f.step place n) = _
      rw [hsteps.step_eq hready.ne_root, hm]
    obtain ⟨l, w, hw, hform, hl, _, hfresh⟩ := Folding.write_form hindent hallows hkeeps
    refine ⟨(' ' :: l) ++ w, ?_, ?_, fun h => ?_⟩
    · rw [hw, hwritten, ← List.reverse_replicate (n := j), ← List.append_assoc, ← List.reverse_append,
        ← List.append_assoc, hlead]
      rfl
    · rw [tokens, if_neg hnull, ← String.ofList_toList (s := scalarText .value s)]
      refine .scalar ?_ (hform.mono houter)
      rcases hl with rfl | rfl
      · exact .here 0
      · exact .below (n := 1) houter
    · have := hfresh h
      have : n < place.inner k n := hsteps.lt_inner
      omega

/-! ### Collections -/

/-- Items are written as lines of a sequence at the column of their dashes. -/
def ItemsWrite (f : Format) (k : Nat) (items : List Content) : Prop :=
  ∀ {t : Nat} {p : Pen} {cs : List Char}, p.indentTo t = ⟨cs, t, true, true⟩ →
    f.KeepsItems t p items → ∃ w, (f.items t p items).written =
        w.reverse ++ (List.replicate k ' ' ++ cs) ∧
      LinesForm true (t + k) (f.itemTokens items) w ∧
        ((f.items t p items).fresh = true → t < (f.items t p items).column)

/-- Entries are written as lines of a mapping. -/
def EntriesWrite (f : Format) (entries : List (String × Content)) : Prop :=
  ∀ {t : Nat} {p : Pen} {cs : List Char}, p.indentTo t = ⟨cs, t, true, true⟩ →
    f.KeepsEntries t p entries → ∃ w, (f.entries t p entries).written = w.reverse ++ cs ∧
      LinesForm false t (f.entryTokens entries) w ∧
        ((f.entries t p entries).fresh = true → t < (f.entries t p entries).column)

variable {t : Nat} {cs : List Char} {c : Content} {rest : List Content}

theorem dashPen_eq (hsteps : f.Steps k) (hp : p.indentTo t = ⟨cs, t, true, true⟩) :
    f.dashPen t p = ⟨'-' :: (List.replicate k ' ' ++ cs), t + k + 1, false, true⟩ := by
  rw [dashPen, hp, hsteps.dashOffset, Int.toNat_natCast]
  simp [Pen.indicate, Pen.put, Nat.add_assoc]

theorem items_cons (indent : Int) (p : Pen) (c : Content) (rest : List Content) :
    f.items indent p (c :: rest) =
      f.items indent (f.node .item indent (f.dashPen indent p) c) rest := rfl

theorem itemsWrite_cons (hsteps : f.Steps k) (hc : f.NodeWrites k c)
    (hrest : rest ≠ [] → f.ItemsWrite k rest) : f.ItemsWrite k (c :: rest) := by
  intro t p cs hp ⟨hkeeps, hmore⟩
  have hdash := dashPen_eq hsteps hp
  have hready : Ready k t .item (f.dashPen t p) (some (t + k + 1)) := by
    rw [hdash]
    exact ⟨by decide, ⟨rfl, rfl, fun _ h => Option.some.inj h⟩, fun _ h => (Option.some.inj h).symm,
      fun _ => rfl⟩
  obtain ⟨w, hw, hform, hcolumn⟩ := hc hready hkeeps
  rw [show (f.dashPen t p).written = '-' :: (List.replicate k ' ' ++ cs) by rw [hdash]] at hw
  rw [items_cons, itemTokens]
  cases rest with
  | nil =>
    refine ⟨'-' :: w, ?_, ?_, hcolumn⟩
    · rw [items, hw]
      simp
    · rw [itemTokens, List.append_nil]
      exact .one (.item hform)
  | cons d rest =>
    obtain ⟨v, hv, hlines, hlast⟩ := hrest (List.cons_ne_nil _ _)
      (Pen.indentTo_break fun hfresh => .inl (hcolumn hfresh)) hmore
    refine ⟨'-' :: w ++ ('\n' :: List.replicate (t + k) ' ' ++ v), ?_, .cons (.item hform) hlines, hlast⟩
    rw [hv, hw, ← List.append_assoc (List.replicate k ' ') (List.replicate t ' '),
      List.replicate_append_replicate, Nat.add_comm k t]
    simp

theorem key_of_isSimpleKey {indent : Int} {key : String} (h : isSimpleKey key = true) :
    f.key indent p key = ((f.keyFolding indent key).write (.ofText none key) (keyPen indent p key)
      key.toList).attach [':'] := by
  unfold Format.key keyPen
  dsimp only
  rw [if_pos h, if_pos h]
  rfl

theorem key_of_not_isSimpleKey {indent : Int} {key : String} (h : ¬ isSimpleKey key = true) :
    f.key indent p key = (((f.keyFolding indent key).write (.ofText none key) (keyPen indent p key)
      key.toList).indentTo indent).indicate [':'] true := by
  unfold Format.key keyPen
  dsimp only
  rw [if_neg h, if_neg h]
  rfl

/-- Behind a key, a node completes its entry. -/
theorem key_writes (hsteps : f.Steps k) {key : String} (hp : p.indentTo t = ⟨cs, t, true, true⟩)
    (hkeeps : (f.keyFolding t key).Keeps (keyPen t p key) key.toList (.ofText none key)) :
    ∃ here v, (f.key t p key).written = v.reverse ++ cs ∧ Ready k t .value (f.key t p key) here ∧
      ∀ {ts w}, NodeForm t here ts w → LineForm false t
        (.key :: .scalar key (Quoting.ofText none key).style :: .value :: ts) (v ++ w) := by
  have hpos := hsteps.pos
  have hindent : (f.keyFolding t key).indent = some (((t + k - 1) + 1 : Nat) : Int) := by
    show some ((t : Int) + f.entryStep) = _
    rw [hsteps.entryStep]
    congr 1
    omega
  obtain ⟨l, w, hw, hform, hl, hline, hfresh⟩ :=
    Folding.write_form hindent (Quoting.allows_ofText none key) hkeeps
  have hform : ScalarForm (t + 1) key.toList (Quoting.ofText none key).style w :=
    hform.mono (by omega)
  have htext := String.ofList_toList (s := key)
  by_cases hsimple : isSimpleKey key = true
  · have hpen : keyPen t p key = ⟨cs, t, true, true⟩ := by rw [keyPen, if_pos hsimple, hp]
    have hallowed : (f.keyFolding t key).allowed = false := congrArg (!·) hsimple
    rw [key_of_isSimpleKey hsimple]
    rw [isSimpleKey, Bool.and_eq_true, decide_eq_true_eq, Bool.not_eq_true'] at hsimple
    obtain ⟨rfl, hfeed, hlength⟩ := hline hallowed hsimple.2
    refine ⟨none, w ++ [':'], ?_, ?_, fun hnode => ?_⟩
    · rw [Pen.written_attach, hw, hpen]
      simp [Folding.lead]
    · exact ⟨by decide, ⟨rfl, rfl, by rintro _ ⟨⟩⟩, by rintro _ ⟨⟩, by rintro ⟨⟩⟩
    · have hkey : key.toList.length ≤ 122 := hsimple.1
      rw [List.append_assoc, List.singleton_append]
      have := LineForm.entry hform hfeed (by omega) hnode
      rwa [htext] at this
  · have hpen : keyPen t p key = ⟨'?' :: cs, t + 1, false, true⟩ := by
      rw [keyPen, if_neg hsimple, hp]
      rfl
    have hbreak : f.key t p key = ⟨':' :: (List.replicate t ' ' ++ '\n' ::
        ((f.keyFolding t key).write (.ofText none key) (keyPen t p key) key.toList).written), t + 1,
          false, true⟩ := by
      rw [key_of_not_isSimpleKey hsimple, Pen.indentTo_break fun h => .inl (by have := hfresh h; omega)]
      rfl
    rw [hbreak]
    refine ⟨some (t + 1), '?' :: ((' ' :: l) ++ w ++ ('\n' :: List.replicate t ' ' ++ [':'])), ?_, ?_,
      fun hnode => ?_⟩
    · rw [hw, hpen]
      simp [Folding.lead]
    · exact ⟨by decide, ⟨rfl, rfl, fun _ h => Option.some.inj h⟩, fun _ h => (Option.some.inj h).symm,
        by rintro ⟨⟩⟩
    · have hgap : Gap (t + 1) (' ' :: l) := by
        rcases hl with rfl | rfl
        · exact .here 0
        · exact .below (n := 1) (by omega)
      have := LineForm.explicit (.scalar hgap hform) hnode
      simpa [htext] using this

theorem entries_cons (indent : Int) (p : Pen) (key : String) (c : Content)
    (rest : List (String × Content)) : f.entries indent p ((key, c) :: rest) =
      f.entries indent (f.node .value indent (f.key indent p key) c) rest := rfl

theorem entriesWrite_cons (hsteps : f.Steps k) {key : String} {rest : List (String × Content)}
    (hc : f.NodeWrites k c) (hrest : rest ≠ [] → f.EntriesWrite rest) :
    f.EntriesWrite ((key, c) :: rest) := by
  intro t p cs hp ⟨hkey, hkeeps, hmore⟩
  obtain ⟨here, u, hu, hready, hline⟩ := key_writes hsteps hp hkey
  obtain ⟨w, hw, hform, hcolumn⟩ := hc hready hkeeps
  rw [hu] at hw
  rw [entries_cons, entryTokens]
  cases rest with
  | nil =>
    refine ⟨u ++ w, ?_, ?_, hcolumn⟩
    · rw [entries, hw]
      simp
    · rw [entryTokens, List.append_nil]
      exact .one (hline hform)
  | cons e rest =>
    obtain ⟨v, hv, hlines, hlast⟩ := hrest (List.cons_ne_nil _ _)
      (Pen.indentTo_break fun hfresh => .inl (hcolumn hfresh)) hmore
    refine ⟨u ++ w ++ ('\n' :: List.replicate t ' ' ++ v), ?_, .cons (hline hform) hlines, hlast⟩
    rw [hv, hw]
    simp

/-! ### Content -/

/-- An empty sequence or mapping is written behind one space. -/
theorem nodeWrites_flow (sequence : Bool) (hready : Ready k n place p here) :
    ∃ w, (p.indicate (flowMarks sequence)).written = w.reverse ++ p.written ∧
      NodeForm (place.outer k n) here [flowStart sequence, flowEnd sequence] w ∧
        ((p.indicate (flowMarks sequence)).fresh = true →
          n < (p.indicate (flowMarks sequence)).column) := by
  refine ⟨List.replicate 1 ' ' ++ flowMarks sequence, ?_, .flow, fun h => ?_⟩
  · rw [Folding.written_indicate, Folding.lead, hready.at_.blank]
    rfl
  · simp [Pen.indicate] at h

theorem nodeWrites_sequence (hsteps : f.Steps k) {items : List Content}
    (h : items ≠ [] → f.ItemsWrite k items) : f.NodeWrites k (.sequence items) := by
  intro place n p here hready hkeeps
  cases items with
  | nil => exact nodeWrites_flow true hready
  | cons c rest =>
    have hpos := hsteps.pos
    obtain ⟨t, ht, hnt, houter, hcolumn⟩ : ∃ t : Nat, f.itemIndent place n p = t ∧ n ≤ t ∧
        place.outer k n < t + k ∧ ∀ column ∈ here, column ≤ t := by
      have houter : place.outer k n < place.inner k n := hsteps.outer_lt
      have hinner : n < place.inner k n := hsteps.lt_inner
      have hinside : ∀ column ∈ here, column ≤ place.inner k n := fun column hcolumn => by
        rw [hready.column column hcolumn]
        exact houter
      rw [itemIndent]
      split
      · next hvalue =>
        rw [Bool.and_eq_true, beq_iff_eq, Bool.not_eq_true', hready.at_.fresh] at hvalue
        obtain ⟨rfl, hnone⟩ := hvalue
        obtain rfl := Option.isSome_eq_false_iff.mp hnone |> Option.isNone_iff_eq_none.mp
        exact ⟨n, rfl, Nat.le_refl _, Nat.lt_add_of_pos_right hpos, by rintro _ ⟨⟩⟩
      · exact ⟨place.inner k n, hsteps.step_eq hready.ne_root, Nat.le_of_lt hinner, by omega, hinside⟩
    obtain ⟨g, hg, hlead⟩ := Pen.indentTo_at hready.at_ hcolumn
    have hkeeps : f.KeepsItems t p (c :: rest) := ht ▸ hkeeps
    obtain ⟨w, hw, hlines, hlast⟩ := h (List.cons_ne_nil _ _) hg hkeeps
    show ∃ w, (f.items (f.itemIndent place n p) p (c :: rest)).written = _ ∧ NodeForm _ _
      (blockStart true :: f.itemTokens (c :: rest) ++ [.blockEnd]) _ ∧
        ((f.items (f.itemIndent place n p) p (c :: rest)).fresh = true →
          n < (f.items (f.itemIndent place n p) p (c :: rest)).column)
    rw [ht]
    refine ⟨g ++ List.replicate k ' ' ++ w, ?_, .block houter (hlead k) hlines,
      fun hfresh => Nat.lt_of_le_of_lt hnt (hlast hfresh)⟩
    rw [hw]
    simp

theorem nodeWrites_mapping (hsteps : f.Steps k) {entries : List (String × Content)}
    (h : entries ≠ [] → f.EntriesWrite entries) : f.NodeWrites k (.mapping entries) := by
  intro place n p here hready hkeeps
  cases entries with
  | nil => exact nodeWrites_flow false hready
  | cons e rest =>
    have ht := hsteps.step_eq (n := n) hready.ne_root
    have houter : place.outer k n < place.inner k n := hsteps.outer_lt
    have hcolumn : ∀ column ∈ here, column ≤ place.inner k n := fun column hcolumn => by
      rw [hready.column column hcolumn]
      exact houter
    obtain ⟨g, hg, hlead⟩ := Pen.indentTo_at hready.at_ hcolumn
    have hkeeps : f.KeepsEntries (place.inner k n : Nat) p (e :: rest) := ht ▸ hkeeps
    obtain ⟨w, hw, hlines, hlast⟩ := h (List.cons_ne_nil _ _) hg hkeeps
    show ∃ w, (f.entries (f.step place n) p (e :: rest)).written = _ ∧ NodeForm _ _
      (blockStart false :: f.entryTokens (e :: rest) ++ [.blockEnd]) _ ∧
        ((f.entries (f.step place n) p (e :: rest)).fresh = true →
          n < (f.entries (f.step place n) p (e :: rest)).column)
    rw [ht]
    refine ⟨g ++ w, ?_, .block houter ?_ hlines, fun hfresh => (hsteps.lt_inner).trans (hlast hfresh)⟩
    · rw [hw]
      simp
    · have := hlead 0
      rwa [List.replicate_zero, List.append_nil] at this

theorem itemsWrite (hsteps : f.Steps k) {items : List Content} (h : ∀ c ∈ items, f.NodeWrites k c) :
    items ≠ [] → f.ItemsWrite k items := by
  induction items with
  | nil => exact fun hne => absurd rfl hne
  | cons c rest ih =>
    exact fun _ => itemsWrite_cons hsteps (h c List.mem_cons_self)
      (ih fun d hd => h d (List.mem_cons_of_mem _ hd))

theorem entriesWrite (hsteps : f.Steps k) {entries : List (String × Content)}
    (h : ∀ e ∈ entries, f.NodeWrites k e.2) : entries ≠ [] → f.EntriesWrite entries := by
  induction entries with
  | nil => exact fun hne => absurd rfl hne
  | cons e rest ih =>
    exact fun _ => entriesWrite_cons hsteps (h e List.mem_cons_self)
      (ih fun d hd => h d (List.mem_cons_of_mem _ hd))

/-- Content without loss is written in one of its layouts. -/
theorem nodeWrites (hsteps : f.Steps k) (hc : c.IsExact) : f.NodeWrites k c := by
  induction hc with
  | scalar hs => exact nodeWrites_scalar hsteps hs
  | sequence _ ih => exact nodeWrites_sequence hsteps (itemsWrite hsteps ih)
  | mapping _ ih => exact nodeWrites_mapping hsteps (entriesWrite hsteps ih)

/-- A mapping is written as a document in one of its layouts, with a line feed at the end. -/
theorem document_form (hsteps : f.Steps k) {entries : List (String × Content)}
    (hexact : ∀ e ∈ entries, e.2.IsExact) (hkeeps : f.KeepsNode .root 0 {} (.mapping entries)) :
    ∃ w, f.document (.mapping entries) = String.ofList (w ++ ['\n']) ∧
      RootForm (f.tokens (.mapping entries)) w := by
  obtain ⟨w, hw, hroot, hfresh⟩ : ∃ w, (f.node .root 0 {} (.mapping entries)).written = w.reverse ∧
      RootForm (f.tokens (.mapping entries)) w ∧
        ((f.node .root 0 {} (.mapping entries)).fresh = true →
          0 < (f.node .root 0 {} (.mapping entries)).column) := by
    cases entries with
    | nil => exact ⟨_, rfl, .empty, by rintro ⟨⟩⟩
    | cons e rest =>
      have hstart : ({} : Pen).indentTo (0 : Nat) = ⟨[], 0, true, true⟩ := rfl
      obtain ⟨w, hw, hlines, hlast⟩ := entriesWrite hsteps (fun d hd => nodeWrites hsteps (hexact d hd))
        (List.cons_ne_nil _ _) hstart hkeeps
      rw [List.append_nil] at hw
      exact ⟨w, hw, .lines hlines, hlast⟩
  refine ⟨w, ?_, hroot⟩
  rw [document, show f.isOpenEnded (.mapping entries) = false from rfl, if_neg (by decide), Pen.text]
  congr 1
  show ((f.node .root 0 {} (.mapping entries)).indentTo (0 : Nat)).written.reverse = _
  rw [Pen.indentTo_break fun h => .inl (hfresh h), hw]
  simp

end Format

end Yaml

end BusinessModel
