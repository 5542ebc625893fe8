import BusinessModel.Proofs.Diagnostic.Suggestion
import BusinessModel.Proofs.Identifier.Recognition
import BusinessModel.Proofs.Workspace.Collection
import BusinessModel.Proofs.Workspace.Hierarchy
import BusinessModel.Proofs.Workspace.Reference
import Mathlib.Data.List.Sort
import Mathlib.Data.String.Basic

/-!
Advice on references. A diagnostic of a reference names its place and its file, and by these the
reference is searched for again. Advice is about the first one found: it is about the reference itself
if no other is to something else at the same place of a file of the same name.
-/

namespace BusinessModel

open Pointer Schema

namespace ReferenceAdvice

variable {registry : IdRegistry}

theorem mem_referenced_iff {r : Reference} :
    r ∈ registry.referenced.flatMap (·.2) ↔ r ∈ registry.references := by
  simp only [IdRegistry.referenced, List.flatMap_map, List.mem_flatMap, IdRegistry.referencesTo,
    List.mem_filter, beq_iff_eq, IdRegistry.mem_referencedIds_iff]
  constructor
  · rintro ⟨_, -, hr, -⟩
    exact hr
  · intro hr
    exact ⟨r.id, ⟨r, hr, rfl⟩, hr, rfl⟩

/-- For the place of a recorded reference a reference is found, at the same place of a file of the same
name. -/
theorem exists_reference? {r : Reference} (hr : r ∈ registry.references) {d : Diagnostic}
    (hpath : d.path = some r.path) (hfile : d.filepath = some r.filepath) :
    ∃ found ∈ registry.references, reference? registry d = some found ∧ found.path = r.path ∧
      found.filepath = r.filepath := by
  have hsome : (reference? registry d).isSome = true := by
    rw [reference?, List.find?_isSome]
    exact ⟨r, mem_referenced_iff.mpr hr, by simp [hpath, hfile]⟩
  obtain ⟨found, hfound⟩ := Option.isSome_iff_exists.mp hsome
  have hsame := List.find?_some hfound
  rw [Bool.and_eq_true, beq_iff_eq, beq_iff_eq, hpath, hfile] at hsame
  exact ⟨found, mem_referenced_iff.mp (List.mem_of_find?_eq_some hfound), hfound,
    Option.some.inj hsame.1, Option.some.inj hsame.2⟩

theorem pairwise_sortedIds (ids : List String) : (sortedIds ids).Pairwise (· ≤ ·) :=
  List.pairwise_mergeSort' (· ≤ ·) ids

theorem mem_sortedIds {ids : List String} {id : String} : id ∈ sortedIds ids ↔ id ∈ ids :=
  List.mem_mergeSort

theorem mem_idsWith_iff {letters id : String} :
    id ∈ registry.idsWith letters ↔ ∃ x ∈ registry.defined, x.letters = letters ∧ x.id = id := by
  simp [IdRegistry.idsWith, and_assoc]

end ReferenceAdvice

namespace Workspace

variable {m : Metadata} {documents : List Document}

theorem DefinitionAt.letters_eq {ids : IdScheme} {place : List Nat} {x : Definition}
    (h : DefinitionAt ids documents place x) : x.letters = (ids.letters? x.id).getD "" := by
  obtain ⟨_, _, _, _, _, rfl⟩ := h
  rfl

/-- The identifiers with some letters are those that the documents define. -/
theorem mem_idsWith_register_iff {letters id : String} :
    id ∈ (register m documents).2.idsWith letters ↔
      ∃ place x, DefinitionAt m.ids documents place x ∧ x.id = id ∧ x.letters = letters := by
  have hrecorded := (register_definitionsExact m documents).recorded
  rw [ReferenceAdvice.mem_idsWith_iff]
  constructor
  · rintro ⟨x, hx, hletters, hid⟩
    obtain ⟨place, hfirst⟩ := (hrecorded.mem_iff x).mp hx
    exact ⟨place, x, hfirst.1, hid, hletters⟩
  · rintro ⟨place, x, hx, rfl, rfl⟩
    obtain ⟨first, y, hy, hid⟩ := hx.exists_first
    exact ⟨y, (hrecorded.mem_iff y).mpr ⟨first, hy⟩, by rw [hy.1.letters_eq, hx.letters_eq, hid], hid⟩

/-- A diagnostic advises on a reference to `id` in the property `field`: it names the identifier or the
property, lists what could be referred to in order, and suggests a nearest one if any. -/
structure AdvisesOn (m : Metadata) (documents : List Document) (id field : String) (d : Diagnostic) :
    Prop where
  sorted : d.validOptions.Pairwise (· ≤ ·)
  undefined : d.code = .undefinedReference →
    (d.suggestion = none ∨ d.SuggestsNearest id) ∧
    (d.hint = none ∨ ∃ kind ∈ m.kinds, kind.letters = (m.ids.letters? id).getD "" ∧
      d.hint = some ("Define " ++ id ++ " in a " ++ kind.documentType.text ++
        " document or reference an existing " ++ kind.humanName ++ ".")) ∧
    ∀ option, option ∈ d.validOptions ↔ ∃ place x, DefinitionAt m.ids documents place x ∧
      x.id = option ∧ x.letters = (m.ids.letters? id).getD ""
  wrongType : d.code = .wrongReferenceType →
    d.suggestion = none ∧
    d.hint = some ("'" ++ field ++ "' accepts: " ++
      ", ".intercalate (((m.acceptedLetters? field).getD []).map m.humanName)) ∧
    ∀ option, option ∈ d.validOptions ↔ ∃ place x, DefinitionAt m.ids documents place x ∧
      x.id = option ∧ x.letters ∈ (m.acceptedLetters? field).getD []

theorem advisesOn_onUndefined {d : Diagnostic} (hcode : d.code = .undefinedReference)
    (hsuggestion : d.suggestion = none) (hhint : d.hint = none) (ref : Reference) :
    AdvisesOn m documents ref.id ref.field
      (ReferenceAdvice.onUndefined m (register m documents).2 ref d) where
  sorted := ReferenceAdvice.pairwise_sortedIds _
  undefined _ := by
    refine ⟨?_, ?_, fun option => ?_⟩
    · exact hsuggestion ▸ ReferenceAdvice.suggestion_onUndefined m _ ref d
    · simp only [ReferenceAdvice.onUndefined, hhint]
      cases hkind : (m.kinds.find? (·.letters == (m.ids.letters? ref.id).getD "")).filter
          fun k => k.documentType.isSet with
      | none => exact .inl (by simp)
      | some kind =>
        have hfound := (Option.filter_eq_some_iff.mp hkind).1
        exact .inr ⟨kind, List.mem_of_find?_eq_some hfound, by simpa using List.find?_some hfound,
          by simp⟩
    · exact ReferenceAdvice.mem_sortedIds.trans mem_idsWith_register_iff
  wrongType hwrong := by
    rw [show (ReferenceAdvice.onUndefined m (register m documents).2 ref d).code = d.code from rfl,
      hcode] at hwrong
    cases hwrong

theorem advisesOn_onWrongType {d : Diagnostic} (hcode : d.code = .wrongReferenceType)
    (hsuggestion : d.suggestion = none) (ref : Reference) :
    AdvisesOn m documents ref.id ref.field
      (ReferenceAdvice.onWrongType m (register m documents).2 ref d) where
  sorted := ReferenceAdvice.pairwise_sortedIds _
  undefined hundefined := by
    rw [show (ReferenceAdvice.onWrongType m (register m documents).2 ref d).code = d.code from rfl,
      hcode] at hundefined
    cases hundefined
  wrongType _ := by
    refine ⟨hsuggestion, rfl, fun option => ?_⟩
    refine ReferenceAdvice.mem_sortedIds.trans ?_
    rw [List.mem_flatMap]
    simp only [mem_idsWith_register_iff]
    constructor
    · rintro ⟨letters, hmem, place, x, hx, hid, rfl⟩
      exact ⟨place, x, hx, hid, hmem⟩
    · rintro ⟨place, x, hx, hid, hmem⟩
      exact ⟨x.letters, hmem, place, x, hx, hid, rfl⟩

/-- The error on a reference: its identifier is not defined, or of a kind that its property does not
accept. -/
def IsErrorOn (m : Metadata) (r : Reference) (d : Diagnostic) : Prop :=
  d = r.undefinedError ∨ ∃ accepted, m.acceptedLetters? r.field = some accepted ∧
    d = r.wrongTypeError m accepted ((m.ids.letters? r.id).getD "")

/-- An error on a reference is advised on from a reference at the same place of a file of the same
name. -/
theorem advise_of_isErrorOn {site : Site} {r : Reference} (hr : ReferenceAt m documents site r)
    {d : Diagnostic} (hd : IsErrorOn m r d) :
    ∃ site' found, ReferenceAt m documents site' found ∧ found.path = r.path ∧
      found.filepath = r.filepath ∧
      AdvisesOn m documents found.id found.field
        (ReferenceAdvice.advise (some m) (register m documents).2 d) := by
  have hplaced (r : Reference) :
      r ∈ (register m documents).2.references ↔ ∃ site, ReferenceAt m documents site r :=
    (references_enumerates m documents).mem_iff r
  have hplace : d.path = some r.path ∧ d.filepath = some r.filepath := by
    rcases hd with rfl | ⟨accepted, -, rfl⟩
    · exact ⟨rfl, rfl⟩
    · exact ⟨rfl, rfl⟩
  obtain ⟨found, hmem, hfound, hpath, hfile⟩ :=
    ReferenceAdvice.exists_reference? ((hplaced r).mpr ⟨site, hr⟩) hplace.1 hplace.2
  obtain ⟨site', hsite⟩ := (hplaced found).mp hmem
  refine ⟨site', found, hsite, hpath, hfile, ?_⟩
  rcases hd with rfl | ⟨accepted, -, rfl⟩
  · rw [ReferenceAdvice.advise, hfound]
    exact advisesOn_onUndefined rfl rfl rfl found
  · rw [ReferenceAdvice.advise, hfound]
    exact advisesOn_onWrongType rfl rfl found

/-- In files of different names, whose mappings have no key twice, a place tells the reference. -/
theorem ReferenceAt.eq_of_path (hfiles : (documents.map (·.filepath)).Nodup)
    (hdistinct : ∀ d ∈ documents, d.content.IsDistinct) {site site' : Site} {r r' : Reference}
    (hr : ReferenceAt m documents site r) (hr' : ReferenceAt m documents site' r')
    (hpath : r'.path = r.path) (hfile : r'.filepath = r.filepath) :
    r'.id = r.id ∧ r'.field = r.field := by
  have hof {site : Site} {r : Reference} (hr : ReferenceAt m documents site r) :
      ∃ d ∈ documents, r ∈ d.references m ∧ r.filepath = d.filepath := by
    obtain ⟨d, hd, hmem⟩ := List.mem_flatMap.mp
      (((references_enumerates m documents).mem_iff r).mpr ⟨site, hr⟩)
    obtain ⟨⟨_, _⟩, d', _, _, _, _, hat, _, _, _, rfl⟩ := Document.mem_references_iff.mp hmem
    cases hat with
    | intro hdocument _ _ =>
      obtain rfl := List.mem_singleton.mp (List.mem_of_getElem? hdocument)
      exact ⟨_, hd, hmem, rfl⟩
  obtain ⟨d, hd, hmem, hin⟩ := hof hr
  obtain ⟨d', hd', hmem', hin'⟩ := hof hr'
  obtain rfl := List.inj_on_of_nodup_map hfiles hd hd' (hin.symm.trans (hfile.symm.trans hin'))
  obtain ⟨_, segments, hleads, hsegments, hfield, -⟩ := Document.exists_leads_of_mem_references hmem
  obtain ⟨_, segments', hleads', hsegments', hfield', -⟩ := Document.exists_leads_of_mem_references hmem'
  obtain ⟨-, rfl, hfound⟩ := hleads.eq_of_ofSegments hleads' (hdistinct _ hd)
    (hsegments.symm.trans (hpath.symm.trans hsegments'))
  exact ⟨(Scalar.str.inj (Content.scalar.inj hfound)).symm,
    Option.some.inj (hfield'.symm.trans hfield)⟩

/-- Every error on a reference is advised on from one at the same place of a file of the same name. If
no other identifier is referred to there, nor from another property, it is advised on from the reference
itself; so it is if the files have different names and no mapping has a key twice. -/
theorem advised_from_reference_at_place {options : ReferenceOptions} {report : ReferenceReport}
    (hreport : checkReferences m documents options = .ok report) {d : Diagnostic}
    (hd : d ∈ report.errors)
    (hcode : d.code = .undefinedReference ∨ d.code = .wrongReferenceType) :
    ∃ site r, ReferenceAt m documents site r ∧ IsErrorOn m r d ∧
      (∃ site' found, ReferenceAt m documents site' found ∧ found.path = r.path ∧
        found.filepath = r.filepath ∧ AdvisesOn m documents found.id found.field
          (ReferenceAdvice.advise (some m) report.registry d)) ∧
      ((∀ site' r', ReferenceAt m documents site' r' → r'.path = r.path →
          r'.filepath = r.filepath → r'.id = r.id ∧ r'.field = r.field) →
        AdvisesOn m documents r.id r.field (ReferenceAdvice.advise (some m) report.registry d)) ∧
      ((documents.map (·.filepath)).Nodup → (∀ d ∈ documents, d.content.IsDistinct) →
        AdvisesOn m documents r.id r.field
          (ReferenceAdvice.advise (some m) report.registry d)) := by
  obtain ⟨cycles, hcycles, rfl⟩ := exists_of_checkReferences hreport
  have hexact : ReferencesExact m documents options (reportWith m documents options cycles) :=
    reportWith_referencesExact (code_of_hierarchyErrors hcycles)
  obtain ⟨site, r, hr, herror⟩ : ∃ site r, ReferenceAt m documents site r ∧ IsErrorOn m r d := by
    rcases hcode with hcode | hcode
    · obtain ⟨site, r, hr, -, rfl⟩ := (hexact.undefined.mem_iff d).mp
        (List.mem_filter.mpr ⟨hd, by simp [hcode]⟩)
      exact ⟨site, r, hr, .inl rfl⟩
    · obtain ⟨site, r, accepted, hr, haccepted, -, -, rfl⟩ := (hexact.wrongType.mem_iff d).mp
        (List.mem_filter.mpr ⟨hd, by simp [hcode]⟩)
      exact ⟨site, r, hr, .inr ⟨accepted, haccepted, rfl⟩⟩
  obtain ⟨site', found, hfound, hpath, hfile, hadvises⟩ := advise_of_isErrorOn hr herror
  refine ⟨site, r, hr, herror, ⟨site', found, hfound, hpath, hfile, hadvises⟩, fun honly => ?_,
    fun hfiles hdistinct => ?_⟩
  · obtain ⟨hid, hfield⟩ := honly site' found hfound hpath hfile
    exact hid ▸ hfield ▸ hadvises
  · obtain ⟨hid, hfield⟩ := hr.eq_of_path hfiles hdistinct hfound hpath hfile
    exact hid ▸ hfield ▸ hadvises

/-! ### Two owners -/

/-- Metadata of actors, who own things. -/
def actorMetadata : Metadata where
  ids := { kinds := [("AC", "actor")] }
  kinds := [⟨"AC", "actor", "actors", "actor"⟩]
  referenceFields := [("owner", ["AC"])]

/-- A document that refers to an owner. -/
def ownedBy (filename : Option String) (id : String) : Document :=
  { content := .mapping [("owner", .scalar (.str id))], filename }

/-- The reference to the owner. -/
def ownerReference (filename : Option String) (id : String) : Reference where
  id := id
  filepath := Document.reportedFile filename
  field := "owner"
  path := "/owner"

theorem hasWords_actors : actorMetadata.ids.HasWords := ⟨by decide, by decide, by decide, by decide⟩

theorem entries_ownedBy (filename : Option String) (id : String) :
    (ownedBy filename id).entries = [⟨"owner", "/owner", .scalar (.str id)⟩] := rfl

theorem references_ownedBy (filename : Option String) {id : String}
    (hvalid : actorMetadata.ids.isValid id = true) :
    (ownedBy filename id).references actorMetadata = [ownerReference filename id] := by
  have howner : Document.owner? actorMetadata.ids "/owner" = none := by
    rw [Document.owner?, show (Pointer.pieces "/owner").dropLast.reverse = [""] by decide,
      List.find?_singleton, hasWords_actors.isValid_empty]
    rfl
  have hfield : actorMetadata.isReferenceField "owner" = true := rfl
  rw [Document.references, entries_ownedBy]
  simp only [List.filter_cons, hfield, if_true, List.filter_nil, List.flatMap_cons, List.flatMap_nil,
    List.append_nil, Document.referencesIn, Entry.texts, hvalid, List.map_cons, List.map_nil, howner]
  rfl

theorem definitions_ownedBy (filename : Option String) (id : String) :
    (ownedBy filename id).definitions actorMetadata.ids = [] := by
  have hnone : actorMetadata.ids.isValid "owner" = false := by
    rw [← Bool.not_eq_true]
    intro howner
    obtain ⟨c, cs, hcons, hcapital⟩ := hasWords_actors.exists_cons howner
    cases hcons
    cases hcapital
  rw [Document.definitions, entries_ownedBy, List.filter_singleton, hnone]
  rfl

/-- Two documents that refer to different actors, who are not defined. -/
theorem exists_report_ownedBy (first second : Option String) :
    ∃ report, checkReferences actorMetadata [ownedBy first "AC00001", ownedBy second "AC00002"] {} =
        .ok report ∧
      report.registry = { references := [ownerReference first "AC00001",
        ownerReference second "AC00002"] } ∧
      (ownerReference second "AC00002").undefinedError ∈ report.errors := by
  obtain ⟨cycles, hcycles⟩ := exists_hierarchyErrors hasWords_actors
    [ownedBy first "AC00001", ownedBy second "AC00002"] {}
  have hvalid (id digits : String) (hid : id = "AC" ++ digits) (hlength : 5 ≤ digits.length)
      (hdigits : digits.toList.all Text.isDecimal = true) : actorMetadata.ids.isValid id = true :=
    hasWords_actors.isValid_iff_reads.mpr
      ⟨"AC", digits, by decide, Int.ofNat_le.mpr hlength, hdigits, .inl hid⟩
  have hone := hvalid "AC00001" "00001" (by decide) (by decide) (by decide)
  have htwo := hvalid "AC00002" "00002" (by decide) (by decide) (by decide)
  have hregister : register actorMetadata [ownedBy first "AC00001", ownedBy second "AC00002"] =
      ([], { references := [ownerReference first "AC00001", ownerReference second "AC00002"] }) := by
    simp [register, definitions_ownedBy, IdRegistry.defineAll, references_ownedBy first hone,
      references_ownedBy second htwo]
  refine ⟨reportWith actorMetadata _ {} cycles, by rw [checkReferences_eq, hcycles]; rfl, ?_, ?_⟩
  · rw [reportWith, hregister]
  · rw [reportWith, hregister]
    refine List.mem_append_left _ (List.mem_append_left _ (List.mem_append_right _ ?_))
    refine List.mem_flatMap.mpr ⟨_, List.mem_cons_of_mem _ List.mem_cons_self, ?_⟩
    exact List.mem_append_left _ List.mem_cons_self

/-- In files of different names each reference is advised on as itself. -/
theorem advised_from_reference_in_named_files :
    ∃ report d, checkReferences actorMetadata
        [ownedBy (some "a.ubml.yaml") "AC00001", ownedBy (some "b.ubml.yaml") "AC00002"] {} =
          .ok report ∧
      d ∈ report.errors ∧ d.code = .undefinedReference ∧
      ∃ site r, ReferenceAt actorMetadata
          [ownedBy (some "a.ubml.yaml") "AC00001", ownedBy (some "b.ubml.yaml") "AC00002"] site r ∧
        AdvisesOn actorMetadata
          [ownedBy (some "a.ubml.yaml") "AC00001", ownedBy (some "b.ubml.yaml") "AC00002"] r.id r.field
          (ReferenceAdvice.advise (some actorMetadata) report.registry d) := by
  obtain ⟨report, hreport, -, hmem⟩ := exists_report_ownedBy (some "a.ubml.yaml") (some "b.ubml.yaml")
  obtain ⟨site, r, hr, -, -, -, hown⟩ := advised_from_reference_at_place hreport hmem (.inl rfl)
  refine ⟨report, _, hreport, hmem, rfl, site, r, hr, hown (by decide) fun d hd => ?_⟩
  simp only [List.mem_cons, List.not_mem_nil, or_false] at hd
  rcases hd with rfl | rfl
  · exact Content.isDistinct_of_test _ rfl
  · exact Content.isDistinct_of_test _ rfl

/-- In files without names the second reference is advised on as the first. -/
theorem advised_from_other_reference :
    ∃ report, checkReferences actorMetadata [ownedBy none "AC00001", ownedBy none "AC00002"] {} =
        .ok report ∧
      (ownerReference none "AC00002").undefinedError ∈ report.errors ∧
      (ReferenceAdvice.advise (some actorMetadata) report.registry
        (ownerReference none "AC00002").undefinedError).hint =
          some "Define AC00001 in a actors document or reference an existing actor." := by
  obtain ⟨report, hreport, hregistry, hmem⟩ := exists_report_ownedBy none none
  refine ⟨report, hreport, hmem, ?_⟩
  rw [hregistry]
  rfl

end Workspace

end BusinessModel
