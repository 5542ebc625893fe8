import BusinessModel.Proofs.Identifier.Next
import BusinessModel.Proofs.Schema.Bundled.Set
import BusinessModel.Proofs.Workspace.Hierarchy
import BusinessModel.Proofs.Workspace.Permutation
import BusinessModel.Workspace.ReferenceAdvice

/-!
The identifier that is proposed in the place of a repeated one: the next that is free, of the same kind
of element.
-/

namespace BusinessModel

open Schema

namespace Workspace

variable {m : Metadata} {documents : List Document}

/-- The letters of a defined identifier are in use. -/
theorem DefinitionAt.exists_letters {ids : IdScheme} (hwords : ids.HasWords) {place : List Nat}
    {x : Definition} (h : DefinitionAt ids documents place x) :
    x.id ≠ "" ∧ ∃ letters ∈ ids.kinds.map (·.1), ids.letters? x.id = some letters := by
  obtain ⟨d, above, e, -, hvalid, rfl⟩ := h
  constructor
  · intro (hempty : e.key = "")
    rw [hempty, hwords.isValid_empty] at hvalid
    cases hvalid
  · obtain ⟨letters, digits, hread⟩ := hwords.isValid_iff_reads.mp hvalid
    exact ⟨letters, hread.inUse, IdScheme.letters?_eq_some_iff.mpr
      ⟨hread.inUse, digits, hwords.split?_of_reads hread⟩⟩

/-- For a repeated identifier the next free one with its letters is proposed. -/
theorem suggestion_duplicateError (hwords : m.ids.HasWords) {place : List Nat} {x first : Definition}
    (hx : DefinitionAt m.ids documents place x) {letters : String}
    (hletters : m.ids.letters? x.id = some letters) (registry : IdRegistry) :
    (ReferenceAdvice.advise (some m) registry (x.duplicateError first)).suggestion =
      some ("Use a new ID such as \"" ++ m.ids.next letters (registry.defined.map (·.id)) none ++ "\"") := by
  obtain ⟨hne, -⟩ := hx.exists_letters hwords
  have hempty : x.id.isEmpty = false := by simpa using hne
  have hlast : ReferenceAdvice.lastSegment? (x.duplicateError first) = some x.id := hx.last?_path
  change (ReferenceAdvice.onDuplicate m registry (x.duplicateError first)).suggestion = _
  rw [ReferenceAdvice.onDuplicate, hlast, Option.bind_some, hempty, if_neg Bool.false_ne_true, hletters]

/-- An identifier that the register does not define is defined in no document. -/
theorem ne_of_notMem_register {id : String} (h : id ∉ (register m documents).2.defined.map (·.id))
    {place : List Nat} {x : Definition} (hx : DefinitionAt m.ids documents place x) : x.id ≠ id := by
  rintro rfl
  obtain ⟨y, hy, hid⟩ := (mem_recorded_iff (register_definitionsExact m documents).recorded x.id).mpr
    ⟨place, x, hx, rfl⟩
  exact h (List.mem_map.mpr ⟨y, hy, hid⟩)

/-- The next identifier is valid and has the letters that it was asked for. -/
theorem isValid_next {ids : IdScheme} (hwords : ids.HasWords) (hstart : 0 ≤ ids.initOffset)
    {letters : String} (hletters : letters ∈ ids.kinds.map (·.1)) (taken : List String) :
    ids.isValid (ids.next letters taken none) = true ∧
      ids.letters? (ids.next letters taken none) = some letters := by
  obtain ⟨k, hnext, -⟩ := @IdScheme.next_eq_format ids letters taken none
  obtain ⟨n, hn⟩ := Int.eq_ofNat_of_zero_le (show 0 ≤ ids.initOffset + k by omega)
  rw [hnext, Option.getD_none, hn]
  exact ⟨hwords.isValid_iff_reads.mpr ⟨_, _, IdScheme.reads_format hletters n⟩,
    IdScheme.letters?_eq_some_iff.mpr ⟨hletters, _, hwords.split?_format hletters n⟩⟩

/-- The next identifier is that of the first free number, behind at most as many others as there are
identifiers taken. The one that is proposed for a repeated identifier is valid, has its letters and is
defined in no document. -/
theorem next_is_first_free :
    (∀ (s : IdScheme) (letters : String) (taken : List String) (start : Option Int),
      ∃ k ≤ taken.dedup.length,
        s.next letters taken start = s.format letters (start.getD s.initOffset + k) ∧
        s.format letters (start.getD s.initOffset + k) ∉ taken ∧
        ∀ j < k, s.format letters (start.getD s.initOffset + j) ∈ taken) ∧
    ∀ m : Metadata, m.ids = SchemaSet.bundled.metadata.ids →
      ∀ (documents : List Document) (options : ReferenceOptions),
        ∃ report, checkReferences m documents options = .ok report ∧
          ∀ d ∈ report.errors, d.code = .duplicateId →
            ∃ place x first letters new, DefinitionAt m.ids documents place x ∧
              d = x.duplicateError first ∧ m.ids.letters? x.id = some letters ∧
              (ReferenceAdvice.advise (some m) report.registry d).suggestion =
                some ("Use a new ID such as \"" ++ new ++ "\"") ∧
              m.ids.isValid new = true ∧ m.ids.letters? new = some letters ∧
              ∀ place' y, DefinitionAt m.ids documents place' y → y.id ≠ new := by
  constructor
  · intro s letters taken start
    obtain ⟨k, hnext, hskipped, hle, hfree⟩ := @IdScheme.next_eq_format s letters taken start
    exact ⟨k, hle, hnext, hfree, hskipped⟩
  · intro m hids documents options
    rw [Bundled.ids_bundled] at hids
    have hwords : m.ids.HasWords := hids ▸ Bundled.hasWords_identifiers
    have hstart : 0 ≤ m.ids.initOffset := hids ▸ by decide
    obtain ⟨cycles, hcycles⟩ := exists_hierarchyErrors hwords documents options
    refine ⟨reportWith m documents options cycles, by rw [checkReferences_eq, hcycles]; rfl, ?_⟩
    intro d hd hcode
    have hduplicate : d ∈ (register m documents).1 := by
      rw [← filter_duplicateId (code_of_hierarchyErrors hcycles)]
      exact List.mem_filter.mpr ⟨hd, by simp [hcode]⟩
    obtain ⟨place, x, _, first, hx, _, _, _, rfl⟩ :=
      ((register_definitionsExact m documents).reported.mem_iff d).mp hduplicate
    obtain ⟨-, letters, hmem, hletters⟩ := hx.exists_letters hwords
    obtain ⟨hvalid, hsame⟩ := isValid_next hwords hstart hmem
      ((register m documents).2.defined.map (·.id))
    obtain ⟨k, hnext, -, -, hfree⟩ := @IdScheme.next_eq_format m.ids letters
      ((register m documents).2.defined.map (·.id)) none
    exact ⟨place, x, first, letters, _, hx, rfl, hletters, suggestion_duplicateError hwords hx hletters _,
      hvalid, hsame, fun place' y hy => ne_of_notMem_register (hnext ▸ hfree) hy⟩

/-- A second definition of an identifier is reported. -/
theorem exists_duplicateId {options : ReferenceOptions} {report : ReferenceReport}
    (hreport : checkReferences m documents options = .ok report) {place place' : List Nat}
    {x x' : Definition} (hx : DefinitionAt m.ids documents place x)
    (hx' : DefinitionAt m.ids documents place' x') (hid : x.id = x'.id) (hlt : place < place') :
    ∃ d ∈ report.errors, d.code = .duplicateId := by
  obtain ⟨first, y, hfirst, hyid⟩ := hx.exists_first
  have hearlier : first < place' :=
    lt_of_le_of_lt (not_lt.mp (hfirst.2 place x hx hyid.symm)) hlt
  have hduplicate := ((register_definitionsExact m documents).reported.mem_iff _).mpr
    ⟨place', x', first, y, hx', hfirst, hyid.trans hid, hearlier, rfl⟩
  obtain ⟨cycles, hcycles, rfl⟩ := exists_of_checkReferences hreport
  rw [← filter_duplicateId (code_of_hierarchyErrors hcycles)] at hduplicate
  exact ⟨_, List.mem_of_mem_filter hduplicate, rfl⟩

/-- An actor that is defined twice. -/
theorem next_for_repeated_actor :
    ∃ (m : Metadata) (documents : List Document) (report : ReferenceReport),
      m.ids = SchemaSet.bundled.metadata.ids ∧ checkReferences m documents {} = .ok report ∧
      ∃ d ∈ report.errors, d.code = .duplicateId ∧ ∃ new,
        (ReferenceAdvice.advise (some m) report.registry d).suggestion =
          some ("Use a new ID such as \"" ++ new ++ "\"") ∧ m.ids.isValid new = true := by
  have hids : ({ ids := Bundled.identifiers } : Metadata).ids = SchemaSet.bundled.metadata.ids :=
    Bundled.ids_bundled.symm
  obtain ⟨report, hreport, hproposed⟩ := next_is_first_free.2 _ hids
    (List.replicate 2 { content := .mapping [("AC00001", .mapping [])] }) {}
  have hvalid : Bundled.identifiers.isValid "AC00001" = true :=
    Bundled.hasWords_identifiers.isValid_iff_reads.mpr
      ⟨"AC", "00001", by decide, by decide, by decide, .inl rfl⟩
  have hdefined (i : Nat) (hi : i < 2) : ∃ x, DefinitionAt Bundled.identifiers
      (List.replicate 2 { content := .mapping [("AC00001", .mapping [])] }) [i, 0] x ∧
        x.id = "AC00001" :=
    ⟨_, ⟨_, [], ⟨"AC00001", Pointer.ofSegments [.key "AC00001"], .mapping []⟩,
      .intro (List.getElem?_replicate_of_lt hi) (.entry rfl (.here _)) rfl, hvalid, rfl⟩, rfl⟩
  obtain ⟨x, hx, hxid⟩ := hdefined 0 (by decide)
  obtain ⟨x', hx', hxid'⟩ := hdefined 1 (by decide)
  obtain ⟨d, hd, hcode⟩ := exists_duplicateId hreport hx hx' (hxid.trans hxid'.symm) (by decide)
  obtain ⟨_, _, _, _, new, _, _, _, hsuggestion, hvalid', _⟩ := hproposed d hd hcode
  exact ⟨_, _, report, hids, hreport, d, hd, hcode, new, hsuggestion, hvalid'⟩

end Workspace

end BusinessModel
