import BusinessModel.Proofs.Yaml.Layout
import Mathlib.Data.List.Basic

/-!
The characters of a layout: a text may hold all of them, so that no layout is refused unread.
-/

namespace BusinessModel.Yaml

theorem isReadable_of_ascii {c : Char} (hlow : ' ' ≤ c) (hhigh : c ≤ '~') : isReadable c = true := by
  simp only [Char.le_def, UInt32.le_iff_toNat_le] at hlow hhigh
  have hlow : 0x20 ≤ c.toNat := hlow
  have hhigh : c.toNat ≤ 0x7E := hhigh
  simp [isReadable, hlow, hhigh]

theorem isReadable_of_hexValue? {c : Char} (h : (Text.hexValue? c).isSome = true) :
    isReadable c = true := by
  unfold Text.hexValue? at h
  split_ifs at h with hdigit hlower hupper
  · exact isReadable_of_ascii (Char.le_trans (by decide) hdigit.1) (Char.le_trans hdigit.2 (by decide))
  · exact isReadable_of_ascii (Char.le_trans (by decide) hlower.1) (Char.le_trans hlower.2 (by decide))
  · exact isReadable_of_ascii (Char.le_trans (by decide) hupper.1) (Char.le_trans hupper.2 (by decide))
  · cases h

theorem isReadable_of_simpleEscape? {c x : Char} (h : simpleEscape? x = some c) : isReadable x = true := by
  unfold simpleEscape? at h
  split at h <;> first | decide | cases h

theorem isReadable_of_escapeDigits? {x : Char} {n : Nat} (h : escapeDigits? x = some n) :
    isReadable x = true := by
  unfold escapeDigits? at h
  split at h <;> first | decide | cases h

/-- A writing has characters that a text may hold, and no others. -/
def AllReadable (w : List Char) : Prop := ∀ ch ∈ w, isReadable ch = true

@[simp] theorem allReadable_nil : AllReadable [] := List.forall_mem_nil _

@[simp] theorem allReadable_cons {c : Char} {w : List Char} :
    AllReadable (c :: w) ↔ isReadable c = true ∧ AllReadable w := List.forall_mem_cons

@[simp] theorem allReadable_append {v w : List Char} :
    AllReadable (v ++ w) ↔ AllReadable v ∧ AllReadable w := List.forall_mem_append

@[simp] theorem allReadable_spaces (n : Nat) : AllReadable (List.replicate n ' ') := fun ch hch => by
  rw [List.eq_of_mem_replicate hch]
  decide

theorem IsEscape.allReadable {c : Char} {e : List Char} (h : IsEscape c e) : AllReadable e := by
  have hslash : isReadable '\\' = true := by decide
  cases h with
  | simple hx => simp [isReadable_of_simpleEscape? hx, hslash]
  | number hx _ hds _ =>
    have hdigits : AllReadable _ := fun d hd => isReadable_of_hexValue? (hds d hd)
    simp [isReadable_of_escapeDigits? hx, hslash, hdigits]

theorem isReadable_of_isLineEnd {b : Char} (h : isLineEnd b = true) : isReadable b = true := by
  simp only [isLineEnd, isSeparator, Bool.or_eq_true, beq_iff_eq] at h
  rcases h with rfl | rfl | rfl <;> decide

theorem QuotedForm.allReadable {double : Bool} {t w : List Char} (h : QuotedForm double t w) :
    AllReadable w := by
  induction h with
  | nil => simp
  | char _ hread _ ih => simp [hread, ih]
  | @mark c _ _ hc _ ih =>
    have hmark : isReadable c = true := by
      cases double with
      | true => rw [if_pos rfl] at hc; rw [hc]; decide
      | false => rcases hc with rfl | rfl <;> decide
    simp [hmark, ih]
  | apostrophe _ _ ih => simpa using ⟨by decide, ih⟩
  | escape _ he _ ih => simp [he.allReadable, ih]
  | spaces _ _ ih => simp [ih]
  | lines hb hbs _ _ ih =>
    have hbs : AllReadable _ := fun b hb => isReadable_of_isLineEnd (hbs b hb)
    simp [isReadable_of_isLineEnd hb, hbs, ih]
  | split _ _ _ ih => simpa using ⟨by decide, by decide, ih⟩

theorem PlainForm.allReadable {least : Nat} {t w : List Char} (h : PlainForm least t w) :
    AllReadable w := by
  have hfeed : isReadable '\n' = true := by decide
  induction h with
  | word hws => exact hws.isReadable
  | spaces hws _ ih => simp [show AllReadable _ from hws.isReadable, ih]
  | fold hws _ _ ih => simp [show AllReadable _ from hws.isReadable, ih, hfeed]

theorem ScalarForm.allReadable {least : Nat} {t w : List Char} {style : Style}
    (h : ScalarForm least t style w) : AllReadable w := by
  cases h with
  | plain hform _ => exact hform.allReadable
  | @quoted double t w hform =>
    have hmark : isReadable (closingMark double) = true := by cases double <;> decide
    simp [hmark, hform.allReadable]

theorem Lead.allReadable {m : Nat} {here : Option Nat} {w : List Char} (h : Lead m here w) :
    AllReadable w := by
  have hfeed : isReadable '\n' = true := by decide
  cases h <;> simp [hfeed]

theorem Gap.allReadable {least : Nat} {w : List Char} (h : Gap least w) : AllReadable w := by
  have hfeed : isReadable '\n' = true := by decide
  cases h <;> simp [hfeed]

theorem allReadable_flowMarks (sequence : Bool) : AllReadable (flowMarks sequence) := by
  cases sequence <;> exact List.forall_iff_forall_mem.mp (by decide)

mutual

theorem NodeForm.allReadable {b : Nat} {here : Option Nat} {ts : List TokenKind} {w : List Char} :
    NodeForm b here ts w → AllReadable w
  | .empty => by simp
  | .scalar hgap h => by simp [hgap.allReadable, h.allReadable]
  | .flow => by simp [allReadable_flowMarks]
  | .block _ hlead h => by simp [hlead.allReadable, h.allReadable]

theorem LinesForm.allReadable {sequence : Bool} {m : Nat} {ts : List TokenKind} {w : List Char} :
    LinesForm sequence m ts w → AllReadable w
  | .one h => h.allReadable
  | .cons h hrest => by
    have hfeed : isReadable '\n' = true := by decide
    simp [h.allReadable, hrest.allReadable, hfeed]

theorem LineForm.allReadable {sequence : Bool} {m : Nat} {ts : List TokenKind} {w : List Char} :
    LineForm sequence m ts w → AllReadable w
  | .item h => by simpa using ⟨by decide, h.allReadable⟩
  | .entry hkey _ _ h => by simpa using ⟨hkey.allReadable, by decide, h.allReadable⟩
  | .explicit hkey h => by
    simpa using ⟨by decide, hkey.allReadable, by decide, by decide, h.allReadable⟩

end

theorem RootForm.allReadable {ts : List TokenKind} {w : List Char} (h : RootForm ts w) :
    AllReadable w := by
  cases h with
  | empty => exact allReadable_flowMarks false
  | lines h => exact h.allReadable

end BusinessModel.Yaml
