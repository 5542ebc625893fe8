import BusinessModel.Proofs.Workspace.Occurrence
import BusinessModel.Proofs.Workspace.Report
import Mathlib.Data.List.Dedup

/-!
Of several definitions of an identifier the first one is recorded, and every later one is reported
with the place of the first.
-/

namespace BusinessModel

open Schema

namespace IdRegistry

theorem isDefined_iff {r : IdRegistry} {id : String} :
    r.isDefined id = true ↔ ∃ x ∈ r.defined, x.id = id := by
  simp [isDefined, definition?]

theorem definition?_eq_some_id {r : IdRegistry} {id : String} {x : Definition}
    (h : r.definition? id = some x) : x.id = id := by
  simpa using List.find?_some h

/-- A further definition is found only if there is no earlier one of the identifier. -/
theorem definition?_concat (r : IdRegistry) (x : Definition) (id : String) :
    ({ r with defined := r.defined ++ [x] } : IdRegistry).definition? id =
      (r.definition? id).or (if x.id = id then some x else none) := by
  simp [definition?, List.find?_append, List.find?_singleton]

/-- A definition, among those with places, of an identifier that the registry does not define and
that no earlier place defines. -/
private def NewIn (r : IdRegistry) (found : List (List Nat × Definition)) (place : List Nat)
    (x : Definition) : Prop :=
  (place, x) ∈ found ∧ r.definition? x.id = none ∧
    ∀ place' y, (place', y) ∈ found → y.id = x.id → ¬ place' < place

/-- The error on a definition, among those with places, that comes after the one that counts. -/
private def LateIn (r : IdRegistry) (found : List (List Nat × Definition)) (place : List Nat)
    (error : Diagnostic) : Prop :=
  ∃ x first, (place, x) ∈ found ∧ error = x.duplicateError first ∧
    (r.definition? x.id = some first ∨
      ∃ place', NewIn r found place' first ∧ first.id = x.id ∧ place' < place)

section Step

variable {r : IdRegistry} {place : List Nat} {x : Definition}
  {rest : List (List Nat × Definition)}

private theorem newIn_cons_of_some {first : Definition} (hx : r.definition? x.id = some first)
    (place' : List Nat) (y : Definition) :
    NewIn r ((place, x) :: rest) place' y ↔ NewIn r rest place' y := by
  constructor
  · rintro ⟨hmem, hnone, hfirst⟩
    refine ⟨?_, hnone, fun p z hz => hfirst p z (List.mem_cons_of_mem _ hz)⟩
    rcases List.mem_cons.mp hmem with heq | hmem
    · cases heq
      rw [hx] at hnone
      cases hnone
    · exact hmem
  · rintro ⟨hmem, hnone, hfirst⟩
    refine ⟨List.mem_cons_of_mem _ hmem, hnone, fun p z hz hid => ?_⟩
    rcases List.mem_cons.mp hz with heq | hz
    · cases heq
      rw [← hid, hx] at hnone
      cases hnone
    · exact hfirst p z hz hid

private theorem lateIn_cons_of_some {first : Definition} (hx : r.definition? x.id = some first)
    (place' : List Nat) (error : Diagnostic) :
    LateIn r ((place, x) :: rest) place' error ↔
      (place' = place ∧ error = x.duplicateError first) ∨ LateIn r rest place' error := by
  constructor
  · rintro ⟨y, first', hmem, rfl, hfirst⟩
    rcases List.mem_cons.mp hmem with heq | hmem
    · cases heq
      rcases hfirst with hsome | ⟨p, ⟨_, hnone, _⟩, hid, _⟩
      · rw [hx] at hsome
        cases hsome
        exact Or.inl ⟨rfl, rfl⟩
      · rw [hid, hx] at hnone
        cases hnone
    · refine Or.inr ⟨y, first', hmem, rfl, hfirst.imp_right ?_⟩
      rintro ⟨p, hnew, hid, hlt⟩
      exact ⟨p, (newIn_cons_of_some hx p first').mp hnew, hid, hlt⟩
  · rintro (⟨rfl, rfl⟩ | ⟨y, first', hmem, rfl, hfirst⟩)
    · exact ⟨x, first, List.mem_cons_self, rfl, Or.inl hx⟩
    · refine ⟨y, first', List.mem_cons_of_mem _ hmem, rfl, hfirst.imp_right ?_⟩
      rintro ⟨p, hnew, hid, hlt⟩
      exact ⟨p, (newIn_cons_of_some hx p first').mpr hnew, hid, hlt⟩

variable (hlt : ∀ p ∈ rest, place < p.1) (hx : r.definition? x.id = none)

include hlt hx in
private theorem newIn_cons_of_none (place' : List Nat) (y : Definition) :
    NewIn r ((place, x) :: rest) place' y ↔
      (place' = place ∧ y = x) ∨
        NewIn { r with defined := r.defined ++ [x] } rest place' y := by
  constructor
  · rintro ⟨hmem, hnone, hfirst⟩
    rcases List.mem_cons.mp hmem with heq | hmem
    · cases heq
      exact Or.inl ⟨rfl, rfl⟩
    · have hid : x.id ≠ y.id := fun hid =>
        hfirst place x List.mem_cons_self hid (hlt _ hmem)
      refine Or.inr ⟨hmem, ?_, fun p z hz => hfirst p z (List.mem_cons_of_mem _ hz)⟩
      rw [definition?_concat, hnone, if_neg hid]
      rfl
  · rintro (⟨rfl, rfl⟩ | ⟨hmem, hnone, hfirst⟩)
    · refine ⟨List.mem_cons_self, hx, fun p z hz _ => ?_⟩
      rcases List.mem_cons.mp hz with heq | hz
      · cases heq
        exact List.lt_irrefl _
      · exact List.lt_asymm (hlt _ hz)
    · rw [definition?_concat, Option.or_eq_none_iff] at hnone
      have hid : x.id ≠ y.id := by
        intro hid
        rw [if_pos hid] at hnone
        cases hnone.2
      refine ⟨List.mem_cons_of_mem _ hmem, hnone.1, fun p z hz hzid => ?_⟩
      rcases List.mem_cons.mp hz with heq | hz
      · cases heq
        exact absurd hzid hid
      · exact hfirst p z hz hzid

include hlt hx in
private theorem lateIn_cons_of_none (place' : List Nat) (error : Diagnostic) :
    LateIn r ((place, x) :: rest) place' error ↔
      LateIn { r with defined := r.defined ++ [x] } rest place' error := by
  constructor
  · rintro ⟨y, first, hmem, rfl, hfirst⟩
    rcases List.mem_cons.mp hmem with heq | hmem
    · cases heq
      rcases hfirst with hsome | ⟨p, ⟨hp, _, _⟩, _, hearlier⟩
      · rw [hx] at hsome
        cases hsome
      · rcases List.mem_cons.mp hp with heq | hp
        · cases heq
          exact absurd hearlier (List.lt_irrefl _)
        · exact absurd hearlier (List.lt_asymm (hlt _ hp))
    · refine ⟨y, first, hmem, rfl, ?_⟩
      rcases hfirst with hsome | ⟨p, hnew, hid, hearlier⟩
      · left
        rw [definition?_concat, hsome]
        rfl
      · rcases (newIn_cons_of_none hlt hx p first).mp hnew with ⟨rfl, rfl⟩ | hnew
        · left
          rw [definition?_concat, ← hid, hx, if_pos rfl]
          rfl
        · exact Or.inr ⟨p, hnew, hid, hearlier⟩
  · rintro ⟨y, first, hmem, rfl, hfirst⟩
    refine ⟨y, first, List.mem_cons_of_mem _ hmem, rfl, ?_⟩
    rcases hfirst with hsome | ⟨p, hnew, hid, hearlier⟩
    · rw [definition?_concat] at hsome
      cases hy : r.definition? y.id with
      | some first' =>
        rw [hy] at hsome
        exact Or.inl hsome
      | none =>
        rw [hy, Option.none_or] at hsome
        split at hsome
        · next hid =>
          cases hsome
          exact Or.inr ⟨place, (newIn_cons_of_none hlt hx place _).mpr (Or.inl ⟨rfl, rfl⟩), hid,
            hlt _ hmem⟩
        · cases hsome
    · exact Or.inr ⟨p, (newIn_cons_of_none hlt hx p first).mpr (Or.inr hnew), hid, hearlier⟩

end Step

/-- Recording definitions in the order of their places adds the first one of every new identifier
and reports all others. -/
private theorem defineAll_enumerates {found : List (List Nat × Definition)}
    (hsorted : found.Pairwise fun a b => a.1 < b.1) (r : IdRegistry) :
    ∃ new, (r.defineAll (found.map (·.2))).2 = { r with defined := r.defined ++ new } ∧
      Enumerates (NewIn r found) new ∧
      Enumerates (LateIn r found) (r.defineAll (found.map (·.2))).1 ∧
      (r.defineAll (found.map (·.2))).1.length + new.length = found.length := by
  induction found generalizing r with
  | nil =>
    refine ⟨[], by simp [defineAll], .of_forall_not ?_, .of_forall_not ?_, rfl⟩
    · simp [NewIn]
    · simp [LateIn]
  | cons p rest ih =>
    obtain ⟨place, x⟩ := p
    obtain ⟨hlt, hrest⟩ := List.pairwise_cons.mp hsorted
    rw [List.map_cons, defineAll, define]
    cases hx : r.definition? x.id with
    | some first =>
      obtain ⟨new, hregistry, hnew, hlate, hlength⟩ := ih hrest r
      refine ⟨new, hregistry, hnew.congr fun place' y => (newIn_cons_of_some hx place' y).symm,
        ?_, ?_⟩
      · refine (hlate.cons place _ ?_).congr fun place' error =>
          (lateIn_cons_of_some hx place' error).symm
        rintro place' error ⟨y, _, hmem, _⟩
        exact hlt _ hmem
      · simp only [List.length_cons]
        omega
    | none =>
      obtain ⟨new, hregistry, hnew, hlate, hlength⟩ :=
        ih hrest { r with defined := r.defined ++ [x] }
      refine ⟨x :: new, ?_, ?_, hlate.congr fun place' error =>
        (lateIn_cons_of_none hlt hx place' error).symm, ?_⟩
      · simpa using hregistry
      · refine (hnew.cons place _ ?_).congr fun place' y =>
          (newIn_cons_of_none hlt hx place' y).symm
        rintro place' y ⟨hmem, _⟩
        exact hlt _ hmem
      · simp only [List.length_cons]
        omega

end IdRegistry

namespace Workspace

/-- The definition of an identifier that no earlier place defines. -/
def FirstDefinitionAt (ids : IdScheme) (documents : List Document) (place : List Nat)
    (x : Definition) : Prop :=
  DefinitionAt ids documents place x ∧
    ∀ place' y, DefinitionAt ids documents place' y → y.id = x.id → ¬ place' < place

/-- A registry and the errors on repeated definitions that are exactly those of the documents. -/
structure DefinitionsExact (ids : IdScheme) (documents : List Document) (registry : IdRegistry)
    (duplicates : List Diagnostic) : Prop where
  /-- The first definition of each identifier is recorded, in the order of the places. -/
  recorded : Enumerates (FirstDefinitionAt ids documents) registry.defined
  /-- Each other definition is reported at its own place, with that of the first definition. -/
  reported : Enumerates (fun place error => ∃ x place' first,
    DefinitionAt ids documents place x ∧ FirstDefinitionAt ids documents place' first ∧
      first.id = x.id ∧ place' < place ∧ error = x.duplicateError first) duplicates
  /-- There is one error for each definition beyond the first of its identifier. -/
  counted : ∃ entries, Enumerates (DefinitionAt ids documents) entries ∧
    duplicates.length = entries.length - (entries.map (·.id)).dedup.length

section First

variable {ids : IdScheme} {documents : List Document}

/-- An identifier that is defined at all has a first definition. -/
theorem DefinitionAt.exists_first {place : List Nat} {x : Definition}
    (h : DefinitionAt ids documents place x) :
    ∃ first y, FirstDefinitionAt ids documents first y ∧ y.id = x.id := by
  obtain ⟨first, y, hy, hid, hfirst⟩ :=
    (definitions_enumerates ids documents).exists_first (p := fun y => y.id = x.id) h rfl
  exact ⟨first, y, ⟨hy, fun place' z hz hzid => hfirst place' z hz (hzid.trans hid)⟩, hid⟩

/-- Recorded definitions are of different identifiers. -/
theorem nodup_of_recorded {defined : List Definition}
    (h : Enumerates (FirstDefinitionAt ids documents) defined) : (defined.map (·.id)).Nodup := by
  obtain ⟨found, hsorted, hmem, rfl⟩ := h
  rw [List.map_map, List.Nodup, List.pairwise_map]
  refine hsorted.imp_of_mem fun {a b} ha hb hlt heq => ?_
  have hfirst := ((hmem b.1 b.2).mp hb).2
  exact hfirst a.1 a.2 ((hmem a.1 a.2).mp ha).1 heq hlt

/-- The recorded identifiers are all that are defined anywhere. -/
theorem mem_recorded_iff {defined : List Definition}
    (h : Enumerates (FirstDefinitionAt ids documents) defined) (id : String) :
    (∃ x ∈ defined, x.id = id) ↔ ∃ place x, DefinitionAt ids documents place x ∧ x.id = id := by
  constructor
  · rintro ⟨x, hx, rfl⟩
    obtain ⟨place, hfirst⟩ := (h.mem_iff x).mp hx
    exact ⟨place, x, hfirst.1, rfl⟩
  · rintro ⟨place, x, hx, rfl⟩
    obtain ⟨first, y, hy, hid⟩ := hx.exists_first
    exact ⟨y, (h.mem_iff y).mpr ⟨first, hy⟩, hid⟩

end First

/-- The first stage of the check records and reports definitions exactly. -/
theorem register_definitionsExact (m : Metadata) (documents : List Document) :
    DefinitionsExact m.ids documents (register m documents).2 (register m documents).1 := by
  have hall := definitions_enumerates m.ids documents
  obtain ⟨found, hsorted, hmem, hvalues⟩ := definitions_enumerates m.ids documents
  obtain ⟨new, hregistry, hnew, hlate, hlength⟩ := IdRegistry.defineAll_enumerates hsorted {}
  rw [hvalues] at hregistry hlate hlength
  have hfirst (place : List Nat) (x : Definition) :
      IdRegistry.NewIn {} found place x ↔ FirstDefinitionAt m.ids documents place x := by
    simp [IdRegistry.NewIn, FirstDefinitionAt, IdRegistry.definition?, hmem]
  have hdefined : (register m documents).2.defined = new := by
    simp [register, hregistry]
  have hrecorded : Enumerates (FirstDefinitionAt m.ids documents)
      (register m documents).2.defined := by
    rw [hdefined]
    exact hnew.congr hfirst
  refine ⟨hrecorded, hlate.congr fun place error => ?_, _, hall, ?_⟩
  · constructor
    · rintro ⟨x, first, hx, rfl, hsome | ⟨place', hnew, hid, hlt⟩⟩
      · simp [IdRegistry.definition?] at hsome
      · exact ⟨x, place', first, (hmem place x).mp hx, (hfirst place' first).mp hnew, hid, hlt, rfl⟩
    · rintro ⟨x, place', first, hx, hnew, hid, hlt, rfl⟩
      exact ⟨x, first, (hmem place x).mpr hx, rfl,
        Or.inr ⟨place', (hfirst place' first).mpr hnew, hid, hlt⟩⟩
  · -- As many definitions are recorded as there are identifiers among the entries.
    have hperm : ((register m documents).2.defined.map (·.id)).Perm
        ((documents.flatMap (Document.definitions m.ids)).map (·.id)).dedup := by
      rw [List.perm_ext_iff_of_nodup (nodup_of_recorded hrecorded) (List.nodup_dedup _)]
      intro id
      have hids := mem_recorded_iff hrecorded id
      simp only [List.mem_dedup, List.mem_map, hids, hall.mem_iff]
      constructor
      · rintro ⟨place, x, hx, hid⟩
        exact ⟨x, ⟨place, hx⟩, hid⟩
      · rintro ⟨x, ⟨place, hx⟩, hid⟩
        exact ⟨place, x, hx, hid⟩
    have hdistinct := hperm.length_eq
    rw [hdefined, List.length_map] at hdistinct
    have hentries : found.length = (documents.flatMap (Document.definitions m.ids)).length := by
      rw [← hvalues, List.length_map]
    have herrors : (register m documents).1.length =
        (IdRegistry.defineAll {} (documents.flatMap (Document.definitions m.ids))).1.length := rfl
    omega

theorem isDefined_register_iff (m : Metadata) (documents : List Document) (id : String) :
    (register m documents).2.isDefined id = true ↔
      ∃ place x, DefinitionAt m.ids documents place x ∧ x.id = id :=
  IdRegistry.isDefined_iff.trans
    (mem_recorded_iff (register_definitionsExact m documents).recorded id)

/-- After the check every identifier that a key defines is recorded with its first definition, and
the errors on repeated identifiers are exactly the later definitions. Only the search for cycles can
make the check fail, and it works on a registry for which the same holds. -/
theorem checkReferences_records_first_definitions (m : Metadata) (documents : List Document)
    (options : ReferenceOptions) :
    match checkReferences m documents options with
    | .ok report =>
      DefinitionsExact m.ids documents report.registry
        (report.errors.filter (·.code == .duplicateId))
    | .error owner =>
      options.checkHierarchy = true ∧ ∃ registry duplicates,
        DefinitionsExact m.ids documents registry duplicates ∧
          registry.cycleErrors m = .error owner := by
  have hexact := register_definitionsExact m documents
  rw [checkReferences_eq]
  cases hcycles : hierarchyErrors m documents options with
  | ok cycles =>
    change DefinitionsExact m.ids documents (register m documents).2 _
    rw [filter_duplicateId (code_of_hierarchyErrors hcycles)]
    exact hexact
  | error owner =>
    obtain ⟨hasked, herror⟩ := hierarchyErrors_eq_error hcycles
    exact ⟨hasked, _, _, hexact, herror⟩

end Workspace

end BusinessModel
