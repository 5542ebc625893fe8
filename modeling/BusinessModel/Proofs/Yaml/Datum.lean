import BusinessModel.Proofs.Text.Numeral
import BusinessModel.Yaml.Datum
import BusinessModel.Yaml.Written
import Mathlib.Data.List.Basic
import Mathlib.Data.List.TakeWhile
import Mathlib.Tactic.IntervalCases
import Mathlib.Tactic.SplitIfs

/-!
Scalars that are written and read again. The form of a plain scalar decides on its type, and so does
the lack of one: a truth value and an integer are written in their own form, and a text that has some
form of these gets quotation marks.
-/

namespace BusinessModel

/-- The scalar is written without loss: it is no floating point number, and no integer with more digits
than can be read. -/
def Scalar.IsExact : Scalar → Prop
  | .int n => (Nat.toDigits 10 n.natAbs).length ≤ maxIntDigits
  | .float _ => False
  | _ => True

namespace Yaml

open Text

/-! ### Integers -/

variable {c : Char} {ds : List Char} {sign : List Char}

theorem mem_of_isDigit (h : c.isDigit = true) : c ∈ "0123456789".toList := by
  obtain ⟨hlow, hhigh⟩ := isDigit_iff.mp h
  have hofNat : Char.ofNat c.toNat = c := Char.ofNat_toNat c
  generalize c.toNat = n at hlow hhigh hofNat
  subst hofNat
  interval_cases n <;> decide

theorem toList_intText (n : Int) : (intText n).toList =
    (if n < 0 then ['-'] else []) ++ Nat.toDigits 10 n.natAbs := by
  unfold intText natText
  split <;> simp [String.toList_append]

/-- A numeral consists of digits, with or without a sign. -/
structure IsNumeral (sign ds : List Char) : Prop where
  sign : sign = [] ∨ sign = ['-']
  ne_nil : ds ≠ []
  digits : ∀ c ∈ ds, c ∈ "0123456789".toList

theorem isNumeral_intText (n : Int) :
    IsNumeral (if n < 0 then ['-'] else []) (Nat.toDigits 10 n.natAbs) := by
  refine ⟨by split <;> simp, Nat.toDigits_ne_nil, fun c hc => ?_⟩
  exact mem_of_isDigit (List.all_eq_true.mp (all_isDigit_toDigits _) c hc)

namespace IsNumeral

theorem mem (h : IsNumeral sign ds) (hc : c ∈ sign ++ ds) : c ∈ "-0123456789".toList := by
  rcases List.mem_append.mp hc with hc | hc
  · rcases h.sign with rfl | rfl
    · cases hc
    · rw [List.mem_singleton.mp hc]
      decide
  · exact List.mem_cons_of_mem _ (h.digits c hc)

end IsNumeral

theorem adjacent_of_forall {p q : Char → Bool} {cs : List Char}
    (h : ∀ a ∈ cs, ∀ b ∈ cs, (p a && q b) = false) : Quoting.adjacent p q cs = false := by
  induction cs with
  | nil => rfl
  | cons a cs ih =>
    cases cs with
    | nil => rfl
    | cons b rest =>
      rw [Quoting.adjacent, h a List.mem_cons_self b (by simp), Bool.false_or]
      exact ih fun c hc d hd => h c (List.mem_cons_of_mem _ hc) d (List.mem_cons_of_mem _ hd)

theorem holdsOther_of_forall {cs : List Char} (h : ∀ c ∈ cs, c ≠ ':' ∧ c ≠ '#') :
    Quoting.holdsOther cs = false := by
  induction cs with
  | nil => rfl
  | cons a cs ih =>
    cases cs with
    | nil => rfl
    | cons b rest =>
      have hb := h b (by simp)
      rw [Quoting.holdsOther, ih fun c hc => h c (List.mem_cons_of_mem _ hc)]
      simp [hb]

/-- A numeral is written without quotation marks. -/
theorem IsNumeral.allowsPlain (h : IsNumeral sign ds) : Quoting.allowsPlain (sign ++ ds) = true := by
  have hchars : ∀ c ∈ "-0123456789".toList, Quoting.isSpecial c = false ∧ (c == ' ') = false ∧
      Quoting.endsLine c = false ∧ Quoting.isGap c = false ∧ c ≠ ':' ∧ c ≠ '#' ∧
        Quoting.opensOther c = false ∧ c ≠ '?' ∧ c ≠ '.' :=
    List.forall_iff_forall_mem.mp (by decide)
  have hmem {c : Char} (hc : c ∈ sign ++ ds) := hchars c (h.mem hc)
  have hdigit : ∀ c ∈ "0123456789".toList, c ≠ '-' ∧ Quoting.separates c = false :=
    List.forall_iff_forall_mem.mp (by decide)
  obtain ⟨d, ds, rfl⟩ := List.exists_cons_of_ne_nil h.ne_nil
  have hd := hdigit d (h.digits d List.mem_cons_self)
  have hsingle : Quoting.allowsSingle (sign ++ d :: ds) = true := by
    have hspecial : (sign ++ d :: ds).any Quoting.isSpecial = false :=
      List.any_eq_false.mpr fun c hc => by rw [(hmem hc).1]; decide
    rw [Quoting.allowsSingle, hspecial, adjacent_of_forall fun c hc _ _ => by rw [(hmem hc).2.1]; rfl,
      adjacent_of_forall fun c hc _ _ => by rw [(hmem hc).2.2.1]; rfl]
    rfl
  have hmultiline : Quoting.isMultiline (sign ++ d :: ds) = false :=
    List.any_eq_false.mpr fun c hc => by rw [(hmem hc).2.2.1]; decide
  have hhead : (sign ++ d :: ds).head?.any Quoting.isGap = false := by
    cases hhead : (sign ++ d :: ds).head? with
    | none => rfl
    | some c => exact (hmem (List.mem_of_mem_head? hhead)).2.2.2.1
  have hlast : (sign ++ d :: ds).getLast?.any Quoting.isGap = false := by
    cases hlast : (sign ++ d :: ds).getLast? with
    | none => rfl
    | some c => exact (hmem (List.mem_of_getLast? hlast)).2.2.2.1
  have hstarts : Quoting.startsOther (sign ++ d :: ds) = false := by
    rcases h.sign with rfl | rfl
    · have := hmem (c := d) List.mem_cons_self
      simp [Quoting.startsOther, List.isPrefixOf, this, hd.1, Ne.symm hd.1,
        Ne.symm this.2.2.2.2.2.2.2.2]
    · have : '-' ≠ d := Ne.symm hd.1
      simp [Quoting.startsOther, List.isPrefixOf, hd.2, this,
        show Quoting.opensOther '-' = false by decide]
  have hholds : Quoting.holdsOther (sign ++ d :: ds) = false :=
    holdsOther_of_forall fun c hc => ⟨(hmem hc).2.2.2.2.1, (hmem hc).2.2.2.2.2.1⟩
  rw [Quoting.allowsPlain, hsingle, hmultiline, hhead, hlast, hstarts, hholds]
  rfl

/-! ### Reading -/

theorem IsNumeral.dropSign (h : IsNumeral sign ds) : dropSign (sign ++ ds) = ds := by
  rcases h.sign with rfl | rfl
  · have hne (c : Char) (rest : List Char) (hds : ds = c :: rest) (hc : c ∉ "0123456789".toList) :
        False := hc (h.digits c (hds ▸ List.mem_cons_self))
    rw [List.nil_append]
    unfold Yaml.dropSign
    split
    · exact (hne _ _ rfl (by decide)).elim
    · exact (hne _ _ rfl (by decide)).elim
    · rfl
  · rfl

/-- A numeral is none of some words that start otherwise. -/
theorem IsNumeral.notMem_words {words : List String} (h : IsNumeral sign ds)
    (hwords : ∀ w ∈ words, (w.toList.head?.any fun c => !"-0123456789".toList.contains c) = true) :
    words.contains (String.ofList (sign ++ ds)) = false := by
  rw [Bool.eq_false_iff]
  intro hmem
  obtain ⟨c, hc, hnot⟩ := (Option.any_eq_true _ _).mp (hwords _ (List.contains_iff_mem.mp hmem))
  rw [String.toList_ofList] at hc
  rw [List.contains_iff_mem.mpr (h.mem (List.mem_of_mem_head? hc))] at hnot
  exact Bool.false_ne_true hnot

private theorem IsNumeral.all_numeral (h : IsNumeral sign ds) : ∀ c ∈ ds, isNumeral Char.isDigit c = true := by
  intro c hc
  have hdigit : ∀ c ∈ "0123456789".toList, isNumeral Char.isDigit c = true :=
    List.forall_iff_forall_mem.mp (by decide)
  exact hdigit c (h.digits c hc)

theorem IsNumeral.isFloatForm_eq (h : IsNumeral sign ds) : isFloatForm .v12 (sign ++ ds) = false := by
  have hwhole : ds.takeWhile (isNumeral Char.isDigit) = ds :=
    List.takeWhile_eq_self_iff.mpr h.all_numeral
  have hunsigned : IsNumeral [] ds := ⟨.inl rfl, h.ne_nil, h.digits⟩
  have hinf : [".inf", ".Inf", ".INF"].contains (String.ofList ds) = false :=
    hunsigned.notMem_words (by decide)
  have hnan : [".nan", ".NaN", ".NAN"].contains (String.ofList (sign ++ ds)) = false :=
    h.notMem_words (by decide)
  unfold isFloatForm
  simp only [h.dropSign, hwhole, hinf, hnan, List.drop_length, Bool.or_false]
  simp [isExponent]

theorem IsNumeral.isIntForm_eq (h : IsNumeral sign ds) : isIntForm .v12 (sign ++ ds) = true := by
  have hall : ds.all (isNumeral Char.isDigit) = true := List.all_eq_true.mpr h.all_numeral
  have hempty : ds.isEmpty = false := List.isEmpty_eq_false_iff.mpr h.ne_nil
  unfold isIntForm
  simp only [h.dropSign, allOf, hempty, hall]
  simp

/-- A numeral has the form of an integer, and no other. -/
theorem IsNumeral.ofPlain (h : IsNumeral sign ds) :
    Tag.ofPlain .v12 (String.ofList (sign ++ ds)) = .int := by
  have hwords : (boolWords .v12).contains (String.ofList (sign ++ ds)) = false :=
    h.notMem_words (by decide)
  have hfirst : ((sign ++ ds).headD ' ' == '-' || (sign ++ ds).headD ' ' == '+' ||
      ((sign ++ ds).headD ' ').isDigit) = true := by
    have hchars : ∀ c ∈ "-0123456789".toList, (c == '-' || c == '+' || c.isDigit) = true :=
      List.forall_iff_forall_mem.mp (by decide)
    cases hcs : sign ++ ds with
    | nil => exact absurd (List.append_eq_nil_iff.mp hcs).2 h.ne_nil
    | cons c rest => exact hchars c (h.mem (hcs ▸ List.mem_cons_self))
  unfold Tag.ofPlain
  simp only [String.toList_ofList, hwords, hfirst, h.isFloatForm_eq, h.isIntForm_eq]
  rfl

theorem decimalNumber_toDigits {m : Nat} (hm : (Nat.toDigits 10 m).length ≤ maxIntDigits) :
    decimalNumber (Nat.toDigits 10 m) = .ok m := by
  have hempty : (Nat.toDigits 10 m).isEmpty = false := List.isEmpty_eq_false_iff.mpr Nat.toDigits_ne_nil
  have hvalue : (Nat.toDigits 10 m).foldl (fun n c => 10 * n + (c.toNat - 48)) 0 = m := by
    have := Nat.ofDigitChars_toDigits (b := 10) (n := m) (by decide) (by decide)
    rwa [Nat.ofDigitChars_eq_foldl] at this
  rw [decimalNumber, naturalOf?, hempty, all_isDigit_toDigits, hvalue]
  simp [Nat.not_lt.mpr hm]

/-- The digits of an integer are read as the integer. -/
theorem intOfText_intText {n : Int} (hn : (Nat.toDigits 10 n.natAbs).length ≤ maxIntDigits) :
    intOfText .v12 (intText n) = .ok n := by
  have h := isNumeral_intText n
  have hnumber := decimalNumber_toDigits hn
  have hvalue : (if decide (n < 0) = true then -(n.natAbs : Int) else n.natAbs) = n := by
    split
    · next hneg => have := of_decide_eq_true hneg; omega
    · next hneg => have : ¬ n < 0 := fun h => hneg (decide_eq_true h); omega
  have hfilter : (intText n).toList.filter (· != '_') = (intText n).toList := by
    refine List.filter_eq_self.mpr fun c hc => ?_
    have hchars : ∀ c ∈ "-0123456789".toList, (c != '_') = true :=
      List.forall_iff_forall_mem.mp (by decide)
    rw [toList_intText] at hc
    exact hchars c (h.mem hc)
  have hsign : splitSign (intText n).toList = (decide (n < 0), Nat.toDigits 10 n.natAbs) := by
    rw [toList_intText]
    split
    · next hneg => rw [decide_eq_true hneg]; rfl
    · next hneg =>
      rw [List.nil_append, decide_eq_false hneg]
      unfold splitSign
      split
      · next hds => exact absurd (h.digits '-' (hds ▸ List.mem_cons_self)) (by decide)
      · next hds => exact absurd (h.digits '+' (hds ▸ List.mem_cons_self)) (by decide)
      · rfl
  have hempty : (intText n).toList.isEmpty = false := by
    rw [toList_intText, List.isEmpty_eq_false_iff]
    exact List.append_ne_nil_of_right_ne_nil _ h.ne_nil
  have hnot (c : Char) (rest : List Char) (hc : c ∉ "0123456789".toList) :
      Nat.toDigits 10 n.natAbs ≠ '0' :: c :: rest := fun hds =>
    hc (h.digits c (hds ▸ List.mem_cons_of_mem _ List.mem_cons_self))
  have hedition : (Edition.v12 == Edition.v11) = false := rfl
  unfold intOfText
  simp only [hfilter, hsign, hempty, hedition, Bool.false_and, Bool.false_eq_true, if_false, bind,
    Except.bind, pure, Except.pure]
  split
  · next hds => exact absurd hds (hnot _ _ (by decide))
  · next hds => exact absurd hds (hnot _ _ (by decide))
  · next hds => exact absurd hds (hnot _ _ (by decide))
  · next hds => exact absurd hds h.ne_nil
  all_goals
    rw [hnumber]
    exact congrArg Except.ok hvalue

/-! ### Types -/

/-- The style in which a scalar is read. -/
def Quoting.style : Quoting → Style
  | .plain => .plain
  | .single => .singleQuoted
  | .double => .doubleQuoted

theorem Quoting.tag_of_plain {asked : Option Quoting} {text : String}
    (h : Quoting.ofText asked text = .plain) : Tag.ofPlain .v12 text = .str := by
  have hdefault (h : (if Tag.ofPlain .v12 text == .str && Quoting.allowsPlain text.toList then Quoting.plain
      else if text.toList.contains '\'' || text.toList.contains '\n' then .double
      else if Quoting.allowsSingle text.toList then .single else .double) = .plain) :
      Tag.ofPlain .v12 text = .str := by
    split_ifs at h with hplain
    rw [Bool.and_eq_true, beq_iff_eq] at hplain
    exact hplain.1
  cases asked with
  | none => exact hdefault h
  | some asked =>
    cases asked with
    | plain => exact hdefault h
    | single =>
      have h : (if Quoting.allowsSingle text.toList then Quoting.single else .double) = .plain := h
      split_ifs at h
    | double => cases h

/-- The type of a scalar that is read without a tag. -/
def Style.tag (style : Style) (text : String) : Tag :=
  if style == .plain then .ofPlain .v12 text else .str

/-- Scalars other than texts are written plain, in a form of their own. -/
theorem plain_of_isExact {s : Scalar} (hs : s.IsExact) (hstr : ∀ text, s ≠ .str text) (hnull : s ≠ .null) :
    Quoting.allowsPlain (scalarText .value s).toList = true ∧ (scalarText .value s).toList ≠ [] ∧
      ∃ tag, Tag.ofPlain .v12 (scalarText .value s) = tag ∧
        ∀ place, Datum.ofText .v12 tag false place (scalarText .value s) = .ok (.ofScalar s) := by
  cases s with
  | null => exact absurd rfl hnull
  | bool b => cases b <;> exact ⟨by decide +kernel, by decide, .bool, by decide +kernel, fun _ => rfl⟩
  | int n =>
    have h := isNumeral_intText n
    have htext : (scalarText .value (.int n)) = intText n := rfl
    have hlist := toList_intText n
    refine ⟨by rw [htext, hlist]; exact h.allowsPlain, ?_, .int, ?_, fun place => ?_⟩
    · rw [htext, hlist]
      exact List.append_ne_nil_of_right_ne_nil _ h.ne_nil
    · rw [htext, ← String.ofList_toList (s := intText n), hlist]
      exact h.ofPlain
    · rw [htext]
      simp only [Datum.ofText, intOfText_intText hs]
      rfl
  | float x => exact hs.elim
  | str text => exact absurd rfl (hstr text)

/-- The quotation marks of a scalar. -/
def Format.quotingOf (f : Format) : Scalar → Quoting
  | .str text => .ofText f.quoting text
  | _ => .plain

theorem tag_ofText (asked : Option Quoting) (text : String) :
    (Quoting.ofText asked text).style.tag text = .str := by
  cases hquoting : Quoting.ofText asked text with
  | plain => exact Quoting.tag_of_plain hquoting
  | single => rfl
  | double => rfl

/-- A text is read as a text. -/
theorem datum_ofText (asked : Option Quoting) (place : Mark) (text : String) :
    Datum.ofText .v12 ((Quoting.ofText asked text).style.tag text) false place text =
      .ok (.ofScalar (.str text)) := by
  rw [tag_ofText]
  rfl

/-- A scalar is read as itself. -/
theorem datum_scalarText {s : Scalar} (f : Format) (hs : s.IsExact) (place : Mark) :
    Datum.ofText .v12 ((f.quotingOf s).style.tag (scalarText .value s)) false place
      (scalarText .value s) = .ok (.ofScalar s) := by
  by_cases hnull : s = .null
  · subst hnull
    rfl
  by_cases hstr : ∃ text, s = .str text
  · obtain ⟨text, rfl⟩ := hstr
    exact datum_ofText _ place text
  · have hstr : ∀ text, s ≠ .str text := fun text heq => hstr ⟨text, heq⟩
    obtain ⟨_, _, tag, htag, hread⟩ := plain_of_isExact hs hstr hnull
    have hplain : f.quotingOf s = .plain := by
      cases s with
      | str text => exact absurd rfl (hstr text)
      | _ => rfl
    rw [hplain]
    show Datum.ofText .v12 (Tag.ofPlain .v12 _) false place _ = _
    rw [htag, hread]

end Yaml

end BusinessModel
