import BusinessModel.Proofs.Schema.Bundled.Set
import BusinessModel.Proofs.Schema.Field
import BusinessModel.Proofs.Workspace.Collection
import BusinessModel.Proofs.Workspace.Hierarchy
import BusinessModel.Proofs.Workspace.Reference

/-!
Documents that meet the bundled schemas. Of the texts in them, those that the check of references takes
for references are those that the schemas ask to refer to elements, and they are of the right kinds. The
activity mappings of process mining documents make an exception, since their keys are free.
-/

namespace BusinessModel

open Pointer Schema Schema.Bundled

/-! ### Documents and their schemas -/

namespace SchemaSet

variable (s : SchemaSet) (d : Document)

/-- The schema that a document is checked against, and the scope in which it is applied. -/
structure ChecksBy (schema : Located) (scope : Scope) : Prop where
  value : s.schema? d.type = .ok schema.value
  place : schema.place = s.placeOf (d.type.getD "")
  scope : ∃ base, idOf? schema.value = .ok base ∧ scope = { base := base.getD "" }

/-- The document meets the schema of its type. -/
def Accepts : Prop := s.violations d.type d.content.toValue = .ok []

/-- Checking the document applies a schema that asks for an identifier to a text in it. -/
def AsksForReference (segments : List Segment) (text : String) : Prop :=
  ∃ schema scope t, s.ChecksBy d schema scope ∧
    Applies s.registry t (.str text) scope schema d.content.toValue segments ∧
    (Walk.AcceptsAny t.value ∨ ∃ letters, Walk.HasLetters t.value letters)

variable {s d}

theorem ChecksBy.unique {a b : Located} {x y : Scope} (h : s.ChecksBy d a x) (h' : s.ChecksBy d b y) :
    a = b ∧ x = y := by
  have hvalue := Except.ok.inj (h.value.symm.trans h'.value)
  obtain ⟨base, hbase, rfl⟩ := h.scope
  obtain ⟨base', hbase', rfl⟩ := h'.scope
  rw [hvalue, hbase'] at hbase
  refine ⟨?_, by rw [Except.ok.inj hbase]⟩
  cases a
  cases b
  rw [Located.mk.injEq]
  exact ⟨hvalue, h.place.trans h'.place.symm⟩

/-- A document that is accepted meets a schema. -/
theorem Accepts.exists_meets (h : s.Accepts d) :
    ∃ schema scope, s.ChecksBy d schema scope ∧ Meets s.registry scope schema d.content.toValue := by
  obtain ⟨v, hv, h⟩ := bind_eq_ok_iff.mp h
  obtain ⟨base, hbase, hcheck⟩ := bind_eq_ok_iff.mp (mapError_eq_ok_iff.mp h)
  exact ⟨⟨v, _⟩, _, ⟨mapError_eq_ok_iff.mp hv, rfl, base, hbase, rfl⟩, _, hcheck⟩

theorem ChecksBy.accepts {schema : Located} {scope : Scope} (h : s.ChecksBy d schema scope)
    (hcheck : check s.registry checkDepth scope schema d.content.toValue = .ok []) : s.Accepts d := by
  obtain ⟨base, hbase, rfl⟩ := h.scope
  refine bind_eq_ok_iff.mpr ⟨schema.value, mapError_eq_ok_iff.mpr h.value, mapError_eq_ok_iff.mpr ?_⟩
  rw [← h.place]
  exact bind_eq_ok_iff.mpr ⟨base, hbase, hcheck⟩

end SchemaSet

namespace Schema.Bundled

theorem all_isAt : documents.zipIdx.all (fun e => documentSchemas.findIdx (·.1 == e.1.type) == e.2) =
    true := by
  decide

/-- The bundled schemas give themselves their addresses. -/
theorem idOf?_schema {h : Home} (hh : h ∈ homes) : idOf? h.schema = .ok (some h.address) := by
  have hmem := mem_addressedSchemas hh
  have haddress := idOf?_of_get? (SchemaSet.get?_id_of_addressOf (hasAddress hmem).1)
  simpa only [dropHashes_of_mem hmem] using haddress

/-- The schema that a document is checked against is that of a document type. -/
theorem exists_stands {doc : Document} {schema : Located} {scope : Scope}
    (h : SchemaSet.bundled.ChecksBy doc schema scope) : ∃ d ∈ documents, doc.type = some d.type ∧
      Stands schema scope (.document d) d.form := by
  have hschema := h.value
  unfold SchemaSet.schema? at hschema
  split at hschema
  · next v hlookup =>
    cases hschema
    rw [documents_bundled] at hlookup
    obtain ⟨type, htype, hlookup⟩ := Option.bind_eq_some_iff.mp hlookup
    obtain ⟨d, hd, heq⟩ := List.mem_map.mp (mem_of_lookup hlookup)
    obtain ⟨rfl, hvalue⟩ := Prod.mk.inj heq
    obtain ⟨i, hi⟩ := List.getElem?_of_mem hd
    have hat : documentSchemas.findIdx (·.1 == d.type) = i :=
      beq_iff_eq.mp (List.all_eq_true.mp all_isAt (d, i) (List.mem_zipIdx_iff_getElem?.mpr hi))
    obtain ⟨base, hbase, rfl⟩ := h.scope
    have haddress : idOf? d.form.value = .ok (some (Home.document d).address) :=
      idOf?_schema (document_mem_homes hd)
    rw [← hvalue, haddress] at hbase
    refine ⟨d, hd, htype, hvalue.symm, ?_, i + 1, ?_, ?_⟩
    · rw [← Except.ok.inj hbase]
      rfl
    · rw [homes, List.getElem?_cons_succ, List.getElem?_map, hi, Option.map_some]
    · rw [h.place, htype, Option.getD_some, SchemaSet.placeOf, documents_bundled, hat]
  · cases hschema

/-! ### Identifiers -/

/-- A text that meets a schema with letters has these letters, or those of some kind. -/
theorem Meets.exists_isNumbered {r : Registry} {scope : Scope} {t : Located} {text : String}
    (hmeets : Meets r scope t (.str text)) {h : Home} {f : Form} (hs : Stands t scope h f)
    {d : DocumentSchema} (hd : d ∈ documents) {turns : List Turn} (hf : Reaches d turns h f)
    {letters : String} (hletters : Walk.lettersOf f.value = some letters) :
    ∃ w ∈ kindLetters, (letters = Walk.anyKind ∨ w = letters) ∧ IdScheme.IsNumbered w 5 text := by
  obtain ⟨hin, hpattern, _⟩ := hf.of_letters hd hletters
  obtain ⟨depth, hsite⟩ := hmeets.exists_site hs
  rw [← hs.value_eq] at hpattern
  obtain ⟨argument, hargument, hvalue⟩ := Located.exists_get? hpattern
  have hparse := beq_iff_eq.mp (List.all_eq_true.mp parse_patternFor letters hin)
  exact (search_patternOfLetters_iff hin).mp ((Site.pattern_eq_nil_iff rfl hvalue hparse).mp
    (hsite _ _ (Located.mem_of_get? hargument)))

section Numbered

variable {w text : String} (hw : w ∈ kindLetters) (h : IdScheme.IsNumbered w 5 text)

include hw h

theorem isValid_bundled : SchemaSet.bundled.metadata.ids.isValid text = true := by
  obtain ⟨k, hk, rfl⟩ := List.mem_map.mp hw
  obtain ⟨digits, hlength, hdigits, htext⟩ := h
  rw [ids_bundled]
  exact (IdScheme.isValid_iff hasWords_identifiers text).mpr
    ⟨_, List.mem_map_of_mem hk, digits, hlength, hdigits, htext⟩

theorem letters_bundled : SchemaSet.bundled.metadata.ids.letters? text = some w := by
  obtain ⟨k, hk, rfl⟩ := List.mem_map.mp hw
  rw [ids_bundled]
  exact hasWords_identifiers.letters?_eq (List.mem_map_of_mem hk) (by decide) h

end Numbered

/-! ### Texts in documents -/

/-- The value of a key in an activity mapping. -/
def MapsActivity (type : Option String) (segments : List Segment) (name : String) : Prop :=
  type = some "mining" ∧ ∃ source, segments =
    [.key "miningSources", .key source, .key "activityMapping", .key name]

theorem MapsActivity.lastKey?_eq {type : Option String} {segments : List Segment} {name : String}
    (h : MapsActivity type segments name) : lastKey? segments = some name := by
  obtain ⟨_, _, rfl⟩ := h
  rfl

theorem Follows.exists_mapsActivity {segments : List Segment} (h : Follows mappingTurns segments) :
    ∃ name, MapsActivity (some "mining") segments name := by
  rw [mappingTurns] at h
  cases h with
  | field h =>
    cases h with
    | entry h =>
      cases h with
      | field h =>
        cases h with
        | entry h =>
          cases h with
          | nil => exact ⟨_, rfl, _, rfl⟩

/-- A text has letters as they are asked for, and stands below a property that refers to elements with
these letters or in an activity mapping. -/
structure HasPlace (type : Option String) (segments : List Segment) (text letters : String) : Prop where
  numbered : ∃ w ∈ kindLetters, (letters = Walk.anyKind ∨ w = letters) ∧
    IdScheme.IsNumbered w 5 text
  below : ∃ name, lastKey? segments = some name ∧
    (Refers name letters ∨ MapsActivity type segments name)

section Text

variable {r : Registry} {d : DocumentSchema} (hd : d ∈ documents) {s t : Located} {scope inside : Scope}
  {x : Value} {segments : List Segment} {turns : List Turn} {h : Home} {f : Form} {text letters : String}

include hd

theorem Descends.hasPlace (hdescends : Descends r d scope s [] x segments turns inside t h f (.str text))
    (hletters : Walk.lettersOf f.value = some letters)
    (hmeets : .way ∉ turns → Meets r inside t (.str text)) :
    HasPlace (some d.type) segments text letters := by
  have hreaches := hdescends.reaches
  rw [List.nil_append] at hreaches
  have hfollows := hdescends.follows
  have hnumbered (hmeets : Meets r inside t (.str text)) :=
    Meets.exists_isNumbered hmeets hdescends.stands hd hreaches hletters
  obtain ⟨_, _, ⟨name, hmem, hholder, hname, hway⟩ | ⟨htype, rfl⟩⟩ := hreaches.of_letters hd hletters
  · refine ⟨hnumbered (hmeets hway), name, (hfollows.holder_iff name).1 hholder, .inl ?_⟩
    have hid : name ≠ "id" := by
      rintro rfl
      exact absurd hmem (by decide)
    exact ⟨d, hd, turns, h, f, hreaches, hname, hid, hletters⟩
  · obtain ⟨name, hmaps⟩ := hfollows.exists_mapsActivity
    rw [htype]
    exact ⟨hnumbered (hmeets (by decide)), name, hmaps.lastKey?_eq, .inr hmaps⟩

end Text

section Document

variable {doc : Document} (hvalid : SchemaSet.bundled.Accepts doc)

include hvalid

/-- A text that a schema asks to refer to an element has its place. -/
theorem exists_hasPlace_of_asks {segments : List Segment} {text : String}
    (hasks : SchemaSet.bundled.AsksForReference doc segments text) :
    ∃ letters, HasPlace doc.type segments text letters := by
  obtain ⟨schema, scope, hchecks, hmeets⟩ := hvalid.exists_meets
  obtain ⟨_, _, t, hchecks', happlies, hletters⟩ := hasks
  obtain ⟨rfl, rfl⟩ := hchecks'.unique hchecks
  obtain ⟨d, hd, htype, hs⟩ := exists_stands hchecks
  obtain ⟨letters, hletters⟩ := Walk.exists_lettersOf_iff.mpr hletters
  obtain ⟨depth, htidy⟩ := areTidy d hd
  have hsome : t.value ≠ .bool false := by
    intro hfalse
    rw [hfalse] at hletters
    cases hletters
  obtain ⟨turns, inside, h, f, hdescends, hinside⟩ := exists_form_of_applies knows_bundled htidy
    happlies hsome .root hs doc.content.isTree_toValue
  rw [hdescends.stands.value_eq] at hletters
  rw [htype]
  exact ⟨letters, hdescends.hasPlace hd hletters fun hway => hinside hway hmeets⟩

/-- The document comes to each text in it by a leaf of the schema of its type. If the leaf has letters,
that is where the schema asks for a reference. -/
theorem exists_leaf_of_leads (hdistinct : doc.content.IsDistinct) {place : List Nat}
    {segments : List Segment} {text : String}
    (hleads : doc.content.Leads place segments (.scalar (.str text))) :
    ∃ d ∈ documents, doc.type = some d.type ∧ ∃ turns h keywords, Reaches d turns h (.leaf keywords) ∧
      Follows turns segments ∧ ∀ letters, Walk.lettersOf (Form.leaf keywords).value = some letters →
        SchemaSet.bundled.AsksForReference doc segments text ∧
          HasPlace doc.type segments text letters := by
  obtain ⟨schema, scope, hchecks, hmeets⟩ := hvalid.exists_meets
  obtain ⟨d, hd, htype, hs⟩ := exists_stands hchecks
  obtain ⟨depth, htidy⟩ := areTidy d hd
  obtain ⟨turns, inside, t, h, keywords, hdescends, hinside⟩ := exists_leaf_applied knows_bundled htidy
    .root hs doc.content.isTree_toValue hmeets (hleads.toValue hdistinct)
  have hreaches := hdescends.reaches
  rw [List.nil_append] at hreaches
  refine ⟨d, hd, htype, turns, h, keywords, hreaches, hdescends.follows, fun letters hletters => ⟨?_, ?_⟩⟩
  · refine ⟨schema, scope, t, hchecks, hdescends.applies, ?_⟩
    rw [← Walk.exists_lettersOf_iff, hdescends.stands.value_eq]
    exact ⟨letters, hletters⟩
  · rw [htype]
    exact hdescends.hasPlace hd hletters fun _ => hinside

/-- Below a property that refers to elements, a schema asks each text to do so. -/
theorem asks_of_leads (hdistinct : doc.content.IsDistinct) {place : List Nat}
    {segments : List Segment} {text name : String}
    (hleads : doc.content.Leads place segments (.scalar (.str text)))
    (hname : lastKey? segments = some name)
    (hfield : SchemaSet.bundled.metadata.isReferenceField name = true) :
    SchemaSet.bundled.AsksForReference doc segments text ∧
      ∃ letters, HasPlace doc.type segments text letters := by
  obtain ⟨d, hd, _, turns, h, keywords, hreaches, hfollows, hasks⟩ :=
    exists_leaf_of_leads hvalid hdistinct hleads
  cases hletters : Walk.lettersOf (Form.leaf keywords).value with
  | some letters => exact ⟨(hasks letters hletters).1, letters, (hasks letters hletters).2⟩
  | none =>
    obtain ⟨letters, hrefers⟩ := isReferenceField_bundled_iff.mp hfield
    rcases (hfollows.holder_iff name).2 hname with hholder | hholder
    · obtain ⟨name', heq, hnot⟩ := hreaches.of_leaf hd rfl hletters hholder
      cases heq
      exact absurd hrefers.mem_referenceNames hnot
    · obtain ⟨name', heq, _⟩ := hreaches.of_leaf hd rfl hletters hholder
      cases heq

/-- In an activity mapping, a schema asks each text to refer to an element. -/
theorem asks_of_mapsActivity (hdistinct : doc.content.IsDistinct) {place : List Nat}
    {segments : List Segment} {text name : String}
    (hleads : doc.content.Leads place segments (.scalar (.str text)))
    (hmaps : MapsActivity doc.type segments name) :
    SchemaSet.bundled.AsksForReference doc segments text := by
  obtain ⟨d, hd, htype, turns, h, keywords, hreaches, hfollows, hasks⟩ :=
    exists_leaf_of_leads hvalid hdistinct hleads
  obtain ⟨hmining, source, rfl⟩ := hmaps
  have hsome := hreaches.of_mapped hd (Option.some.inj (htype.symm.trans hmining)) hfollows
  obtain ⟨letters, hletters⟩ := Option.isSome_iff_exists.mp hsome
  exact (hasks letters hletters).1

end Document

/-! ### A process mining document -/

/-- The registry of the bundled set, with the addresses as they are written. -/
def writtenRegistry : Registry :=
  let located := (addressedSchemas ++ Metaschema.schemas).zipIdx.map fun ((address, v), i) =>
    (address, (⟨v, ⟨i, []⟩⟩ : Located))
  { resources := located.reverse
    survey := located.foldl (fun acc (address, s) =>
      acc.append (Survey.ofValue address s.place .schema s.value)) {} }

theorem registry_eq_writtenRegistry : SchemaSet.bundled.registry = writtenRegistry := by
  rw [registry_bundled]
  unfold Registry.ofSchemas writtenRegistry
  extract_lets located written
  have hlocated : located = written := by
    refine List.map_congr_left fun e he => ?_
    have hmem : e.1 ∈ addressedSchemas ++ Metaschema.schemas := List.fst_mem_of_mem_zipIdx he
    have hdropped : Address.dropHashes e.1.1 = e.1.1 := by
      rcases List.mem_append.mp hmem with hmem | hmem
      · exact dropHashes_of_mem hmem
      · exact Metaschema.dropHashes_of_mem hmem
    simp only [hdropped]
  have hlast : Registry.lastOfEach written = written :=
    Registry.lastOfEach_eq_self ((Registry.map_fst_zipIdx (·) _).symm ▸ nodup_addresses)
  rw [hlocated, hlast]

/-- A process mining document with one source, in which these activities are mapped. -/
def miningDocumentOf (activities : List (String × Content)) : Document where
  type := some "mining"
  content := .mapping [("ubml", .scalar (.str "1.0")), ("miningSources", .mapping
    [("MS00001", .mapping
      [("name", .scalar (.str "Orders")), ("activityMapping", .mapping activities)])])]

/-- An activity with a number, and one named like the property of owners. -/
def twoActivities : List (String × Content) :=
  [("1", .scalar (.str "ST00001")), ("owner", .scalar (.str "ST00002"))]

/-- The value of the document in which they are mapped. -/
def miningValue : Value :=
  .map [(.str "ubml", .str "1.0"), (.str "miningSources", .map
    [(.str "MS00001", .map [(.str "name", .str "Orders"), (.str "activityMapping", .map
      [(.str "1", .str "ST00001"), (.str "owner", .str "ST00002")])])])]

theorem check_miningValue : (check writtenRegistry checkDepth
    { base := "https://ubml.io/schemas/1.0/documents/mining.document.yaml" }
    ⟨miningDocument.form.value, ⟨9, []⟩⟩ miningValue).toOption.any List.isEmpty = true := by
  decide +kernel

/-- The document is accepted, and so are others with its value. -/
theorem accepts_of_toValue_eq {activities : List (String × Content)}
    (hvalue : (miningDocumentOf activities).content.toValue = miningValue) :
    SchemaSet.bundled.Accepts (miningDocumentOf activities) := by
  have haddress : idOf? miningDocument.form.value = .ok (some (Home.document miningDocument).address) :=
    idOf?_schema (document_mem_homes (by simp [documents]))
  have hwritten : (Home.document miningDocument).address =
      "https://ubml.io/schemas/1.0/documents/mining.document.yaml" := by decide
  have hchecks : SchemaSet.bundled.ChecksBy (miningDocumentOf activities)
      ⟨miningDocument.form.value, ⟨9, []⟩⟩
      { base := "https://ubml.io/schemas/1.0/documents/mining.document.yaml" } := by
    refine ⟨?_, ?_, _, haddress, by rw [hwritten, Option.getD_some]⟩
    · rw [SchemaSet.schema?, documents_bundled]
      rfl
    · rw [SchemaSet.placeOf, documents_bundled]
      rfl
  obtain ⟨violations, hcheck, hempty⟩ := exists_of_any_toOption check_miningValue
  rw [List.isEmpty_iff.mp hempty, ← registry_eq_writtenRegistry, ← hvalue] at hcheck
  exact hchecks.accepts hcheck

/-- The way to an activity. -/
def activityAt (name : String) : List Segment :=
  [.key "miningSources", .key "MS00001", .key "activityMapping", .key name]

theorem leads_activity {activities : List (String × Content)} {i : Nat} {name : String} {c found : Content}
    {place : List Nat} {segments : List Segment} (hactivity : activities[i]? = some (name, c))
    (hleads : c.Leads place segments found) : (miningDocumentOf activities).content.Leads
      (1 :: 0 :: 1 :: i :: place) (activityAt name ++ segments) found :=
  .entry rfl (.entry rfl (.entry rfl (.entry hactivity hleads)))

/-- The same activities behind another value for the number, which is hidden. -/
def threeActivities : List (String × Content) :=
  ("1", .mapping [("owner", .scalar (.str "ST00002"))]) :: twoActivities

theorem isReferenceField_owner : SchemaSet.bundled.metadata.isReferenceField "owner" = true :=
  isReferenceField_bundled_iff.mpr ⟨"AC", refers_owner_iff.mpr rfl⟩

end Schema.Bundled

/-! ### Workspaces -/

namespace Workspace

/-- Over words of capital letters the check succeeds, and the references in its report are exact. -/
theorem exists_referencesExact {m : Metadata} (hwords : m.ids.HasWords) (documents : List Document)
    (options : ReferenceOptions) : ∃ report, checkReferences m documents options = .ok report ∧
      report.registry = (register m documents).2 ∧ ReferencesExact m documents options report := by
  obtain ⟨cycles, hcycles⟩ := exists_hierarchyErrors hwords documents options
  refine ⟨reportWith m documents options cycles, ?_, rfl,
    reportWith_referencesExact (code_of_hierarchyErrors hcycles)⟩
  rw [checkReferences_eq, hcycles]
  rfl

/-- In documents that meet the bundled schemas, the texts that are collected as references are those
that the schemas ask to refer to elements; those in activity mappings are collected only under keys that
are properties of references. Unless there are such keys, no reference is to an element of the wrong
kind. -/
theorem checkReferences_agrees_with_schemas {documents : List Document}
    (hdistinct : ∀ d ∈ documents, d.content.IsDistinct)
    (hvalid : ∀ d ∈ documents, SchemaSet.bundled.Accepts d) (options : ReferenceOptions) :
    ∃ report, checkReferences SchemaSet.bundled.metadata documents options = .ok report ∧
      (∀ d ∈ documents, ∀ {place segments text},
        d.content.Leads place segments (.scalar (.str text)) →
          ((∃ r ∈ (report.registry.referenced.lookup text).getD [],
              r ∈ d.references SchemaSet.bundled.metadata ∧ r.path = ofSegments segments) ↔
            SchemaSet.bundled.AsksForReference d segments text ∧
              ∀ name, MapsActivity d.type segments name →
                SchemaSet.bundled.metadata.isReferenceField name = true)) ∧
      ((∀ d ∈ documents, ∀ {place segments name found}, d.content.Leads place segments found →
          MapsActivity d.type segments name →
            SchemaSet.bundled.metadata.isReferenceField name = false) →
        ∀ error ∈ report.errors, error.code ≠ .wrongReferenceType) := by
  obtain ⟨report, hreport, hregistry, hexact⟩ :=
    exists_referencesExact (ids_bundled ▸ hasWords_identifiers) documents options
  refine ⟨report, hreport, fun d hd place segments text hleads => ?_, fun hkeys error herror hcode => ?_⟩
  · rw [hregistry, IdRegistry.lookup_referenced]
    constructor
    · rintro ⟨r, hr, hmem, hpath⟩
      have hid : r.id = text := by simpa [IdRegistry.referencesTo] using (List.mem_filter.mp hr).2
      obtain ⟨_, segments', hleads', hpath', hname, hfield, _⟩ :=
        Document.exists_leads_of_mem_references hmem
      obtain ⟨_, rfl, _⟩ :=
        hleads.eq_of_ofSegments hleads' (hdistinct d hd) (hpath.symm.trans hpath')
      obtain ⟨hasks, _⟩ := asks_of_leads (hvalid d hd) (hdistinct d hd) hleads hname hfield
      refine ⟨hasks, fun name hmaps => ?_⟩
      cases hmaps.lastKey?_eq.symm.trans hname
      exact hfield
    · rintro ⟨hasks, hmapped⟩
      obtain ⟨letters, ⟨w, hw, _, hnumbered⟩, name, hname, hbelow⟩ :=
        exists_hasPlace_of_asks (hvalid d hd) hasks
      have hfield : SchemaSet.bundled.metadata.isReferenceField name = true := by
        rcases hbelow with hrefers | hmaps
        · exact isReferenceField_bundled_iff.mpr ⟨letters, hrefers⟩
        · exact hmapped name hmaps
      obtain ⟨r, hmem, hpath, hid, _⟩ :=
        Document.exists_reference_of_leads hleads hname hfield (isValid_bundled hw hnumbered)
      refine ⟨r, ?_, hmem, hpath⟩
      rw [IdRegistry.referencesTo, references_register]
      exact List.mem_filter.mpr ⟨List.mem_flatMap.mpr ⟨d, hd, hmem⟩, by simpa using hid⟩
  · have hwrong := (hexact.wrongType.mem_iff error).mp (List.mem_filter.mpr ⟨herror, by simp [hcode]⟩)
    obtain ⟨site, r, accepted, hr, haccepted, hne, hnot, _⟩ := hwrong
    obtain ⟨d, hd, hmem⟩ := List.mem_flatMap.mp
      (((references_enumerates _ documents).mem_iff r).mpr ⟨site, hr⟩)
    obtain ⟨_, segments, hleads, _, hname, hfield, _⟩ := Document.exists_leads_of_mem_references hmem
    obtain ⟨_, letters, ⟨w, hw, hletters, hnumbered⟩, name, hname', hbelow⟩ :=
      asks_of_leads (hvalid d hd) (hdistinct d hd) hleads hname hfield
    cases hname.symm.trans hname'
    rcases hbelow with hrefers | hmaps
    · rw [letters_bundled hw hnumbered, Option.getD_some] at hnot
      obtain ⟨hkind, hin⟩ := (hrefers.accepted_bundled haccepted).resolve_left hne
      rw [hletters.resolve_left hkind] at hnot
      exact hnot hin
    · rw [hkeys d hd hleads hmaps] at hfield
      cases hfield

theorem checkReferences_agrees_on_mapped_owner :
    (∀ d ∈ [miningDocumentOf twoActivities], d.content.IsDistinct) ∧
      (∀ d ∈ [miningDocumentOf twoActivities], SchemaSet.bundled.Accepts d) ∧
      ∃ report, checkReferences SchemaSet.bundled.metadata [miningDocumentOf twoActivities] {} =
          .ok report ∧
        ∃ r ∈ (report.registry.referenced.lookup "ST00002").getD [],
          r.path = "/miningSources/MS00001/activityMapping/owner" := by
  have hdistinct : ∀ d ∈ [miningDocumentOf twoActivities], d.content.IsDistinct :=
    List.forall_mem_singleton.mpr (Content.isDistinct_of_test _ (by decide))
  have hvalid : ∀ d ∈ [miningDocumentOf twoActivities], SchemaSet.bundled.Accepts d :=
    List.forall_mem_singleton.mpr (accepts_of_toValue_eq rfl)
  obtain ⟨report, hreport, hcollected, _⟩ := checkReferences_agrees_with_schemas hdistinct hvalid {}
  have hleads : (miningDocumentOf twoActivities).content.Leads [1, 0, 1, 1] (activityAt "owner")
      (.scalar (.str "ST00002")) := leads_activity rfl (.here _)
  have hmaps : MapsActivity (some "mining") (activityAt "owner") "owner" := ⟨rfl, _, rfl⟩
  have hasks := asks_of_mapsActivity (hvalid _ List.mem_cons_self) (hdistinct _ List.mem_cons_self)
    hleads hmaps
  obtain ⟨r, hr, _, hpath⟩ := (hcollected _ List.mem_cons_self hleads).mpr ⟨hasks, fun name hname => by
    cases hname.lastKey?_eq
    exact isReferenceField_owner⟩
  exact ⟨hdistinct, hvalid, report, hreport, r, hr, hpath.trans (by decide)⟩

/-- An owner that is no actor is a reference of the wrong type. -/
theorem exists_wrongType_of_owner {documents : List Document} {d : Document} (hd : d ∈ documents)
    {place : List Nat} {segments : List Segment} {text letters : String}
    (hleads : d.content.Leads place segments (.scalar (.str text)))
    (howner : lastKey? segments = some "owner") (hletters : letters ∈ kindLetters)
    (hother : letters ≠ "AC") (hnumbered : IdScheme.IsNumbered letters 5 text) (options : ReferenceOptions) :
    ∃ report, checkReferences SchemaSet.bundled.metadata documents options = .ok report ∧
      ∃ error ∈ report.errors, error.code = .wrongReferenceType ∧
        error.path = some (ofSegments segments) := by
  obtain ⟨report, hreport, _, hexact⟩ :=
    exists_referencesExact (ids_bundled ▸ hasWords_identifiers) documents options
  obtain ⟨accepted, haccepted⟩ := Option.isSome_iff_exists.mp isReferenceField_owner
  have hmem {letters : String} := @mem_accepted_bundled_iff _ letters
    (mt refers_owner_iff.mp (by decide)) accepted haccepted
  obtain ⟨r, hr, hpath, rfl, hname⟩ := Document.exists_reference_of_leads hleads howner
    isReferenceField_owner (isValid_bundled hletters hnumbered)
  obtain ⟨site, hsite⟩ := ((references_enumerates SchemaSet.bundled.metadata documents).mem_iff r).mp
    (List.mem_flatMap.mpr ⟨d, hd, hr⟩)
  have herror := (hexact.wrongType.mem_iff _).mpr ⟨site, r, accepted, hsite, hname ▸ haccepted,
    List.ne_nil_of_mem (hmem.mpr (refers_owner_iff.mpr rfl)), by
      rw [letters_bundled hletters hnumbered, Option.getD_some, hmem, refers_owner_iff]
      exact hother, rfl⟩
  exact ⟨report, hreport, _, List.mem_of_mem_filter herror, rfl, congrArg some hpath⟩

/-- A text in an activity mapping under a key that is no property is not collected, though the schema
asks for a reference there. One under the key of owners is of the wrong type, though the schema accepts
it. So is one in a value that is hidden by another with the same key. -/
theorem checkReferences_differs_from_schemas :
    SchemaSet.bundled.Accepts (miningDocumentOf twoActivities) ∧
      SchemaSet.bundled.AsksForReference (miningDocumentOf twoActivities) (activityAt "1") "ST00001" ∧
      (∃ report, checkReferences SchemaSet.bundled.metadata [miningDocumentOf twoActivities] {} =
          .ok report ∧
        (∀ r ∈ (report.registry.referenced.lookup "ST00001").getD [],
          r.path ≠ ofSegments (activityAt "1")) ∧
        ∃ error ∈ report.errors, error.code = .wrongReferenceType ∧
          error.path = some (ofSegments (activityAt "owner"))) ∧
      SchemaSet.bundled.Accepts (miningDocumentOf threeActivities) ∧
      ∃ report, checkReferences SchemaSet.bundled.metadata [miningDocumentOf threeActivities] {} =
          .ok report ∧
        ∃ error ∈ report.errors, error.code = .wrongReferenceType ∧
          error.path = some (ofSegments (activityAt "1" ++ [.key "owner"])) := by
  have hdistinct : (miningDocumentOf twoActivities).content.IsDistinct :=
    Content.isDistinct_of_test _ (by decide)
  have hvalid : SchemaSet.bundled.Accepts (miningDocumentOf twoActivities) :=
    accepts_of_toValue_eq rfl
  have hnumber : (miningDocumentOf twoActivities).content.Leads [1, 0, 1, 0] (activityAt "1")
      (.scalar (.str "ST00001")) := leads_activity rfl (.here _)
  have howned : (miningDocumentOf twoActivities).content.Leads [1, 0, 1, 1] (activityAt "owner")
      (.scalar (.str "ST00002")) := leads_activity rfl (.here _)
  have hsteps : "ST" ∈ kindLetters := by decide
  have hwrong {activities : List (String × Content)} {place : List Nat} {segments : List Segment}
      (hleads : (miningDocumentOf activities).content.Leads place segments (.scalar (.str "ST00002")))
      (howner : lastKey? segments = some "owner") :=
    exists_wrongType_of_owner (List.mem_singleton_self _) hleads howner hsteps (by decide)
      ⟨"00002".toList, by decide, by decide, .inl (by decide)⟩ {}
  obtain ⟨report, hreport, hregistry, _⟩ := exists_referencesExact (m := SchemaSet.bundled.metadata)
    (ids_bundled ▸ hasWords_identifiers) [miningDocumentOf twoActivities] {}
  obtain ⟨_, hreport', herror⟩ := hwrong howned rfl
  cases hreport.symm.trans hreport'
  refine ⟨hvalid, asks_of_mapsActivity hvalid hdistinct hnumber ⟨rfl, _, rfl⟩,
    ⟨report, hreport, fun r hr hpath => ?_, herror⟩, accepts_of_toValue_eq rfl,
    hwrong (leads_activity (i := 0) rfl (.entry (i := 0) rfl (.here _))) rfl⟩
  rw [hregistry, IdRegistry.lookup_referenced, IdRegistry.referencesTo, references_register] at hr
  obtain ⟨d, hd, hmem⟩ := List.mem_flatMap.mp (List.mem_of_mem_filter hr)
  cases List.mem_singleton.mp hd
  obtain ⟨_, segments, hleads, hpath', hname, hfield, _⟩ :=
    Document.exists_leads_of_mem_references hmem
  obtain ⟨_, rfl, _⟩ := hnumber.eq_of_ofSegments hleads hdistinct (hpath.symm.trans hpath')
  rw [← Option.some.inj hname] at hfield
  obtain ⟨letters, hrefers⟩ := isReferenceField_bundled_iff.mp hfield
  exact absurd hrefers.mem_referenceNames (by decide)

end Workspace

end BusinessModel
