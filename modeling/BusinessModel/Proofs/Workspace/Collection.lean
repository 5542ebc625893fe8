import BusinessModel.Proofs.Document.Distinct
import BusinessModel.Proofs.Workspace.Occurrence

/-!
Which texts of a document are references: those that are valid identifiers and stand below a property
that refers to elements, as its value or as an item of its value.
-/

namespace BusinessModel

open Pointer Schema

/-- A way can be cut wherever its segments are. -/
theorem Content.Leads.exists_split {c found : Content} {place : List Nat}
    {segments more : List Segment} (h : Leads c place (segments ++ more) found) :
    ∃ place' place'' passed, Leads c place' segments passed ∧ Leads passed place'' more found := by
  induction segments generalizing c place with
  | nil => exact ⟨[], place, c, .here c, h⟩
  | cons s segments ih =>
    cases h with
    | item hitem tail =>
      obtain ⟨place', place'', passed, hleads, hmore⟩ := ih tail
      exact ⟨_, place'', passed, .item hitem hleads, hmore⟩
    | entry hentry tail =>
      obtain ⟨place', place'', passed, hleads, hmore⟩ := ih tail
      exact ⟨_, place'', passed, .entry hentry hleads, hmore⟩

theorem Content.Leads.append {c passed found : Content} {place place' : List Nat}
    {segments more : List Segment} (h : Leads c place segments passed)
    (hmore : Leads passed place' more found) :
    Leads c (place ++ place') (segments ++ more) found := by
  induction h with
  | here _ => exact hmore
  | item hitem _ ih => exact .item hitem (ih hmore)
  | entry hentry _ ih => exact .entry hentry (ih hmore)

namespace Document

variable {m : Metadata} {d : Document}

theorem mem_references_iff {r : Reference} :
    r ∈ d.references m ↔ ∃ site, Workspace.ReferenceAt m [d] site r := by
  have h := (Workspace.references_enumerates m [d]).mem_iff r
  rwa [List.flatMap_singleton] at h

/-- Where a reference stands. -/
theorem exists_leads_of_mem_references {r : Reference} (hr : r ∈ d.references m) :
    ∃ place segments, d.content.Leads place segments (.scalar (.str r.id)) ∧
      r.path = ofSegments segments ∧ lastKey? segments = some r.field ∧
      m.isReferenceField r.field = true ∧ m.ids.isValid r.id = true := by
  obtain ⟨⟨entry, n⟩, d', above, e, path, text, hat, hfield, htext, hvalid, rfl⟩ :=
    mem_references_iff.mp hr
  cases hat with
  | @intro i place _ _ _ hdocument hleads hpath =>
    have hd : d' = d := List.mem_singleton.mp (List.mem_of_getElem? hdocument)
    subst hd
    cases htext with
    | scalar hvalue hpath' =>
      rw [hvalue] at hleads
      exact ⟨place, _, hleads, hpath'.trans hpath, by simp [lastKey?], hfield, hvalid⟩
    | item hvalue hitem hpath' =>
      rw [hvalue] at hleads
      refine ⟨_, _, hleads.append (.item hitem (.here _)), ?_, by simp [lastKey?], hfield, hvalid⟩
      rw [hpath', hpath, join_ofSegments]

/-- A valid identifier below a property that refers to elements is a reference. -/
theorem exists_reference_of_leads {place : List Nat} {segments : List Segment} {text name : String}
    (hleads : d.content.Leads place segments (.scalar (.str text)))
    (hname : lastKey? segments = some name) (hfield : m.isReferenceField name = true)
    (hvalid : m.ids.isValid text = true) :
    ∃ r ∈ d.references m, r.path = ofSegments segments ∧ r.id = text ∧ r.field = name := by
  obtain ⟨above, hsegments⟩ : ∃ above, segments = above ++ [.key name] ∨
      ∃ i, segments = above ++ [.key name] ++ [.index i] := by
    unfold lastKey? at hname
    split at hname
    · next name' rest hreverse =>
      cases hname
      exact ⟨rest.reverse, .inl (by
        rw [← List.reverse_reverse segments, hreverse, List.reverse_cons])⟩
    · next i name' rest hreverse =>
      cases hname
      exact ⟨rest.reverse, .inr ⟨i, by
        rw [← List.reverse_reverse segments, hreverse, List.reverse_cons, List.reverse_cons]⟩⟩
    · cases hname
  have hcollect {place : List Nat} {e : Entry} {path : String} {n : Nat} (hkey : e.key = name)
      (hat : d.content.Leads place (above ++ [.key e.key]) e.value)
      (hpath : e.path = ofSegments (above ++ [.key e.key]))
      (htext : Workspace.TextAt e n path text) (heq : path = ofSegments segments) :
      ∃ r ∈ d.references m, r.path = ofSegments segments ∧ r.id = text ∧ r.field = name := by
    refine ⟨_, mem_references_iff.mpr ⟨⟨0 :: place, n⟩, d, above, e, path, text, .intro rfl hat hpath,
      ?_, htext, hvalid, rfl⟩, heq, rfl, hkey⟩
    rw [hkey]
    exact hfield
  rcases hsegments with rfl | ⟨i, rfl⟩
  · exact hcollect (e := ⟨name, _, _⟩) rfl hleads rfl (.scalar rfl rfl) rfl
  · obtain ⟨place', place'', passed, hfront, hback⟩ := hleads.exists_split
    cases hback with
    | item hitem htail =>
      cases htail with
      | here _ =>
        exact hcollect (e := ⟨name, _, _⟩) rfl hfront rfl (.item rfl hitem rfl)
          (join_ofSegments _ _)

end Document

end BusinessModel
