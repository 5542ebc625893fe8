import BusinessModel.Workspace.References
import Mathlib.Data.List.Nodup

/-!
Of the documents of a type of which there may be only one, all but one are reported.
-/

namespace BusinessModel

open Schema

/-- A document of a type of which there is another one already. -/
structure Repeat where
  type : String
  document : Document
  first : Document

/-- The error on a repeated type. -/
def Repeat.error (r : Repeat) : Diagnostic := r.document.repeatError r.type r.first

/-- Repeated types in a list of documents: each is that of a document and of another one, and of the
documents of a type of which there may be only one, all but one are repeats. -/
structure RepeatsExact (m : Metadata) (documents : List Document) (repeats : List Repeat) :
    Prop where
  among : ∀ r ∈ repeats, r.document ∈ documents ∧ r.first ∈ documents ∧
    r.document.type = some r.type ∧ r.first.type = some r.type ∧ r.document.serial ≠ r.first.serial
  counted : ∀ type, repeats.countP (·.type == type) =
    if m.multiplicity type = .singleton then documents.countP (·.type == some type) - 1 else 0

/-- The first documents of types that are met before others: none of them is among these. -/
private def SeenBefore (seen : List (String × Document)) (documents : List Document) : Prop :=
  ∀ p ∈ seen, p.2.type = some p.1 ∧ ∀ d ∈ documents, p.2.serial ≠ d.serial

/-- How many documents repeat a type, if the first documents of some types are met before them. -/
private def repeatCount (m : Metadata) (documents : List Document)
    (seen : List (String × Document)) (type : String) : Nat :=
  if m.multiplicity type = .singleton then
    documents.countP (·.type == some type) - (if (seen.lookup type).isSome then 0 else 1)
  else 0

section Step

variable {m : Metadata} {d : Document} {rest : List Document} {seen : List (String × Document)}

private theorem repeatCount_cons_of_ne {type : String}
    (h : d.type = some type → m.multiplicity type ≠ .singleton) :
    repeatCount m (d :: rest) seen type = repeatCount m rest seen type := by
  unfold repeatCount
  by_cases hsingleton : m.multiplicity type = .singleton
  · have hne : d.type ≠ some type := fun htype => h htype hsingleton
    simp [hsingleton, hne]
  · rw [if_neg hsingleton, if_neg hsingleton]

private theorem repeatCount_cons_first {type : String} (htype : d.type = some type)
    (hseen : seen.lookup type = none) (other : String) :
    repeatCount m (d :: rest) seen other = repeatCount m rest ((type, d) :: seen) other := by
  by_cases hother : other = type
  · subst hother
    simp [repeatCount, htype, hseen]
  · have hne : ¬ d.type = some other := by
      rw [htype]
      exact fun heq => hother (Option.some.inj heq).symm
    have hbeq : (other == type) = false := by simpa using hother
    have hlookup : ((type, d) :: seen).lookup other = seen.lookup other := by
      rw [List.lookup_cons, hbeq]
    unfold repeatCount
    rw [hlookup]
    simp [hne]

private theorem repeatCount_cons_later {type : String} {first : Document}
    (htype : d.type = some type) (hsingleton : m.multiplicity type = .singleton)
    (hseen : seen.lookup type = some first) (other : String) :
    repeatCount m (d :: rest) seen other =
      repeatCount m rest seen other + if type == other then 1 else 0 := by
  by_cases hother : type = other
  · subst hother
    simp [repeatCount, htype, hseen, hsingleton]
  · have hne : ¬ d.type = some other := by
      rw [htype]
      exact fun heq => hother (Option.some.inj heq)
    simp [repeatCount, hne, hother]

end Step

/-- What holds of the repeats in documents before which other ones are met. -/
private structure RepeatsBehind (m : Metadata) (documents : List Document)
    (seen : List (String × Document)) (repeats : List Repeat) : Prop where
  among : ∀ r ∈ repeats, r.document ∈ documents ∧ (r.first ∈ documents ∨ (r.type, r.first) ∈ seen) ∧
    r.document.type = some r.type ∧ r.first.type = some r.type ∧ r.document.serial ≠ r.first.serial
  counted : ∀ type, repeats.countP (·.type == type) = repeatCount m documents seen type

/-- A document that repeats no type leaves the repeats as they are. -/
private theorem RepeatsBehind.cons {m : Metadata} {d : Document} {rest : List Document}
    {seen seen' : List (String × Document)} {repeats : List Repeat}
    (h : RepeatsBehind m rest seen' repeats) (hseen : ∀ p ∈ seen', p ∈ seen ∨ p.2 = d)
    (hcount : ∀ type, repeatCount m (d :: rest) seen type = repeatCount m rest seen' type) :
    RepeatsBehind m (d :: rest) seen repeats := by
  refine ⟨fun r hr => ?_, fun type => (h.counted type).trans (hcount type).symm⟩
  obtain ⟨hdocument, hfirst, htypes⟩ := h.among r hr
  refine ⟨List.mem_cons_of_mem _ hdocument, ?_, htypes⟩
  rcases hfirst with hfirst | hfirst
  · exact Or.inl (List.mem_cons_of_mem _ hfirst)
  · rcases hseen _ hfirst with hfirst | hfirst
    · exact Or.inr hfirst
    · exact Or.inl (List.mem_cons.mpr (Or.inl hfirst))

/-- A document of a type that is met before is one more repeat. -/
private theorem RepeatsBehind.later {m : Metadata} {d first : Document} {rest : List Document}
    {seen : List (String × Document)} {repeats : List Repeat} {type : String}
    (h : RepeatsBehind m rest seen repeats) (htype : d.type = some type)
    (hsingleton : m.multiplicity type = .singleton) (hlookup : seen.lookup type = some first)
    (hmem : (type, first) ∈ seen) (hfirst : first.type = some type)
    (hother : first.serial ≠ d.serial) :
    RepeatsBehind m (d :: rest) seen (⟨type, d, first⟩ :: repeats) := by
  refine ⟨fun r hr => ?_, fun other => ?_⟩
  · rcases List.mem_cons.mp hr with rfl | hr
    · exact ⟨List.mem_cons_self, Or.inr hmem, htype, hfirst, hother.symm⟩
    · obtain ⟨hdocument, hearlier, htypes⟩ := h.among r hr
      exact ⟨List.mem_cons_of_mem _ hdocument, hearlier.imp_left (List.mem_cons_of_mem _), htypes⟩
  · rw [repeatCount_cons_later htype hsingleton hlookup, List.countP_cons, h.counted other]

private theorem exists_repeats {m : Metadata} {documents : List Document}
    {seen : List (String × Document)} (hserials : (documents.map (·.serial)).Nodup)
    (hseen : SeenBefore seen documents) :
    ∃ repeats, multiplicityErrors m documents seen = repeats.map Repeat.error ∧
      RepeatsBehind m documents seen repeats := by
  induction documents generalizing seen with
  | nil => exact ⟨[], rfl, by simp, by simp [repeatCount]⟩
  | cons d rest ih =>
    rw [List.map_cons, List.nodup_cons] at hserials
    have hrest : SeenBefore seen rest := fun p hp =>
      ⟨(hseen p hp).1, fun d' hd' => (hseen p hp).2 d' (List.mem_cons_of_mem _ hd')⟩
    have hskip (hcount : ∀ type,
        repeatCount m (d :: rest) seen type = repeatCount m rest seen type) :
        ∃ repeats, multiplicityErrors m rest seen = repeats.map Repeat.error ∧
          RepeatsBehind m (d :: rest) seen repeats := by
      obtain ⟨repeats, herrors, hrepeats⟩ := ih hserials.2 hrest
      exact ⟨repeats, herrors, hrepeats.cons (fun p hp => Or.inl hp) hcount⟩
    cases htype : d.type with
    | none =>
      rw [multiplicityErrors, htype]
      exact hskip fun type => repeatCount_cons_of_ne (by simp [htype])
    | some type =>
      rw [multiplicityErrors, htype]
      dsimp only
      by_cases hsingleton : m.multiplicity type = .singleton
      · rw [if_neg (by simpa using hsingleton)]
        cases hlookup : seen.lookup type with
        | none =>
          have hseen' : SeenBefore ((type, d) :: seen) rest := by
            intro p hp
            rcases List.mem_cons.mp hp with rfl | hp
            · exact ⟨htype, fun d' hd' heq => hserials.1 (List.mem_map.mpr ⟨d', hd', heq.symm⟩)⟩
            · exact hrest p hp
          obtain ⟨repeats, herrors, hrepeats⟩ := ih hserials.2 hseen'
          refine ⟨repeats, herrors, hrepeats.cons (fun p hp => ?_) ?_⟩
          · exact (List.mem_cons.mp hp).symm.imp_right fun heq => by rw [heq]
          · exact repeatCount_cons_first htype hlookup
        | some first =>
          have hmem : (type, first) ∈ seen := by
            obtain ⟨before, after, rfl, -⟩ := List.lookup_eq_some_iff.mp hlookup
            simp
          obtain ⟨hfirst, hserial⟩ := hseen _ hmem
          have hother := hserial d List.mem_cons_self
          obtain ⟨repeats, herrors, hrepeats⟩ := ih hserials.2 hrest
          dsimp only
          rw [if_neg (by simpa using hother), herrors]
          exact ⟨⟨type, d, first⟩ :: repeats, rfl,
            hrepeats.later htype hsingleton hlookup hmem hfirst hother⟩
      · rw [if_pos (by simpa using hsingleton)]
        refine hskip fun other => repeatCount_cons_of_ne fun heq => ?_
        rw [htype] at heq
        cases heq
        exact hsingleton

/-- If no document is listed twice, the errors on repeated types are those of all documents of such
types but one each. -/
theorem multiplicityErrors_exact {m : Metadata} {documents : List Document}
    (hserials : (documents.map (·.serial)).Nodup) :
    ∃ repeats, multiplicityErrors m documents [] = repeats.map Repeat.error ∧
      RepeatsExact m documents repeats := by
  have hseen : SeenBefore [] documents := fun p hp => by cases hp
  obtain ⟨repeats, herrors, hrepeats⟩ := exists_repeats (m := m) hserials hseen
  refine ⟨repeats, herrors, fun r hr => ?_, fun type => ?_⟩
  · obtain ⟨hdocument, hfirst, htypes⟩ := hrepeats.among r hr
    exact ⟨hdocument, hfirst.resolve_right (by simp), htypes⟩
  · rw [hrepeats.counted type]
    simp [repeatCount]

end BusinessModel
