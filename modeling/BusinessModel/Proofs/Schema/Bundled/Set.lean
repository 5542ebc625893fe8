import BusinessModel.Proofs.Schema.Bundled.Position
import BusinessModel.Proofs.Schema.Finding
import BusinessModel.Proofs.Schema.Simple

/-!
The bundled schemas make up a set. All of them are schemas with addresses of their own, the walk through
them comes to its end, and what it notes is what the metadata of the set say.
-/

namespace BusinessModel.Schema.Bundled

open Walk

/-! ### Addresses -/

theorem all_isSimple : addressedSchemas.all (fun e => Metaschema.isSimple 12 e.2 &&
    (e.2.get? "$id").bind Value.str? == some e.1 && !e.1.isEmpty) = true := by
  decide +kernel

theorem hasAddress {e : String × Value} (he : e ∈ addressedSchemas) :
    SchemaSet.HasAddress e.2 e.1 := by
  have hsimple := List.all_eq_true.mp all_isSimple e he
  simp only [Bool.and_eq_true, beq_iff_eq, Bool.not_eq_true'] at hsimple
  exact SchemaSet.hasAddress_of_isSimple hsimple.1.1 hsimple.1.2 hsimple.2 (by decide)

theorem mem_addressedSchemas {h : Home} (hh : h ∈ homes) :
    (h.address, h.schema) ∈ addressedSchemas :=
  List.mem_cons_of_mem _ (List.mem_map_of_mem hh)

theorem document_mem_homes {d : DocumentSchema} (hd : d ∈ documents) : .document d ∈ homes :=
  List.mem_cons_of_mem _ (List.mem_map_of_mem hd)

/-- No address ends in a number sign. -/
theorem getLast?_address (h : Home) : h.address.toList.getLast? = some 'l' := by
  cases h with
  | shared =>
    rw [Home.address, String.toList_append, List.getLast?_append]
    rfl
  | document d =>
    rw [Home.address, Home.path, String.toList_append, String.toList_append, List.getLast?_append,
      List.getLast?_append]
    rfl

theorem dropHashes_of_mem {e : String × Value} (he : e ∈ addressedSchemas) :
    Address.dropHashes e.1 = e.1 := by
  apply Address.dropHashes_eq
  rcases List.mem_cons.mp he with rfl | he
  · rw [String.toList_append, List.getLast?_append]
    decide
  · obtain ⟨h, _, rfl⟩ := List.mem_map.mp he
    rw [getLast?_address]
    decide

theorem nodup_addresses : ((addressedSchemas ++ Metaschema.schemas).map (·.1)).Nodup := by
  decide

/-- The bundled schemas are taken by their addresses. -/
theorem addressed_eq_addressedSchemas (source : String) :
    SchemaSet.addressed source (SchemaSet.labelled indexSchema definitionsSchema documentSchemas) =
      .ok addressedSchemas := by
  refine SchemaSet.addressed_eq_ok source ?_ ?_
  · refine .cons ⟨rfl, hasAddress List.mem_cons_self⟩
      (.cons ⟨rfl, hasAddress (mem_addressedSchemas List.mem_cons_self)⟩ ?_)
    rw [documentSchemas, List.map_map, List.map_map, List.forall₂_map_left_iff,
      List.forall₂_map_right_iff]
    exact List.forall₂_same.mpr fun d hd =>
      ⟨rfl, hasAddress (mem_addressedSchemas (document_mem_homes hd))⟩
  · exact List.pairwise_map.mp
      (nodup_addresses.sublist ((List.sublist_append_left _ _).map _))

/-- A registry of the bundled schemas, with or without those of schemas, finds each of them. -/
theorem knows_ofSchemas {more : List (String × Value)} (hmore : more.Sublist Metaschema.schemas) :
    Knows (.ofSchemas (addressedSchemas ++ more)) := by
  have hsublist := (List.Sublist.refl addressedSchemas).append hmore
  intro i h hi
  refine Registry.find?_ofSchemas (fun e he => ?_) (nodup_addresses.sublist (hsublist.map _)) ?_
  · rcases List.mem_append.mp he with he | he
    · exact dropHashes_of_mem he
    · exact Metaschema.dropHashes_of_mem (hmore.subset he)
  · have hget : addressedSchemas[i + 1]? = some (h.address, h.schema) := by
      rw [addressedSchemas, List.getElem?_cons_succ, List.getElem?_map, hi, Option.map_some]
    rw [List.getElem?_append_left (List.getElem?_eq_some_iff.mp hget).1, hget]

/-! ### The walk -/

/-- The registry that the metadata of the set are read with. -/
def ownRegistry : Registry := .ofSchemas addressedSchemas

theorem knows_ownRegistry : Knows ownRegistry := by
  have h := knows_ofSchemas (List.nil_sublist Metaschema.schemas)
  rwa [List.append_nil] at h

/-- Whether what the schema of a form is about, and its advice on words, can be read. -/
def Form.isReadable (f : Form) : Bool :=
  (f.value.get? "x-ubml").all Value.isMap && (Block.enumHint f.value []).toOption.isSome

theorem all_isReadable : documents.all (fun d =>
    d.form.all (fun _ _ f => f.isReadable) 12 [] (.document d)) = true := by
  decide

theorem Reaches.isReadable {d : DocumentSchema} (hd : d ∈ documents) {turns : List Turn} {h : Home}
    {f : Form} (hf : Reaches d turns h f) : f.isReadable = true :=
  hf.of_all (List.all_eq_true.mp all_isReadable d hd)

/-- Nothing makes the walk end early. -/
theorem not_halts {e : Malformed} : ¬ Halts ownRegistry addresses e := by
  have hvisits {v : Visit} (hv : Visits ownRegistry addresses v) :
      ∃ h f, Stands v.schema v.scope h f ∧ f.isPlain h = true ∧ f.isReadable = true := by
    obtain ⟨d, hd, _, h, f, hreaches, hs, _⟩ := exists_reaches_of_visits knows_ownRegistry areTidy hv
    exact ⟨h, f, hs, (Bool.and_eq_true_iff.mp (hreaches.isTidy areTidy hd)).1, hreaches.isReadable hd⟩
  intro hhalts
  cases hhalts with
  | start haddress hfollow =>
    obtain ⟨d, hd, rfl⟩ := List.mem_map.mp haddress
    obtain ⟨_, _, hfound, _⟩ := exists_follow_address knows_ownRegistry hd
    cases hfound.symm.trans hfollow
  | @reference v target _ hv htarget hfollow =>
    obtain ⟨h, f, hs, hplain, _⟩ := hvisits hv
    obtain ⟨argument, hargument, hvalue⟩ := Located.exists_get? htarget
    have hreference : f.reference? = some target := by
      cases (hs.holds hplain (Located.mem_of_get? hargument)).1 with
      | inert hin => exact absurd hin (by decide)
      | shared hf _ heq =>
        cases heq.symm.trans hvalue
        rw [hf, Form.reference?]
      | own hf _ heq =>
        cases heq.symm.trans hvalue
        rw [hf, Form.reference?]
      | _ _ hkey _ => exact absurd hkey (by decide)
    obtain ⟨_, _, _, _, hfound, _⟩ := hs.exists_follow knows_ownRegistry hplain hreference
    cases hfound.symm.trans hfollow
  | table hv hkeyword hlacks =>
    obtain ⟨h, f, hs, hplain, _⟩ := hvisits hv
    obtain ⟨_, hvalue, _, hmap⟩ := hlacks
    obtain ⟨argument, hargument, rfl⟩ := Option.map_eq_some_iff.mp hvalue
    cases (hs.holds hplain (Located.mem_of_get? hargument)).1 with
    | inert hin =>
      have hdisjoint : ∀ k ∈ inertKeywords, k ∉ ["properties", "patternProperties"] := by decide
      exact hdisjoint _ hin hkeyword
    | properties _ _ heq =>
      rw [heq] at hmap
      cases hmap
    | _ _ hkey _ =>
      rw [hkey] at hkeyword
      exact absurd hkeyword (by decide)
  | list hv hkeyword hlacks =>
    obtain ⟨h, f, hs, hplain, _⟩ := hvisits hv
    obtain ⟨_, hvalue, _, hmembers⟩ := hlacks
    obtain ⟨argument, hargument, rfl⟩ := Option.map_eq_some_iff.mp hvalue
    cases (hs.holds hplain (Located.mem_of_get? hargument)).1 with
    | inert hin =>
      have hdisjoint : ∀ k ∈ inertKeywords, k ∉ wayKeywords := by decide
      exact hdisjoint _ hin hkeyword
    | ways _ _ heq =>
      rw [heq] at hmembers
      cases hmembers
    | _ _ hkey _ =>
      rw [hkey] at hkeyword
      exact absurd hkeyword (by decide)
  | about hs hlacks =>
    obtain ⟨_, hv, _⟩ := hs
    obtain ⟨h, f, hs, _, hreadable⟩ := hvisits hv
    obtain ⟨about, habout, _, hmap⟩ := hlacks
    rw [hs.value_eq] at habout
    have hall := (Bool.and_eq_true_iff.mp hreadable).1
    rw [habout, Option.all_some, hmap] at hall
    cases hall

theorem exists_notes : ∃ notes, ofAddresses ownRegistry addresses = .ok notes := by
  cases hnotes : ofAddresses ownRegistry addresses with
  | ok notes => exact ⟨notes, rfl⟩
  | error e => exact (not_halts ((ends_ofAddresses _ _).of_error hnotes)).elim

/-- Whether the advice on words can be read does not depend on the properties that it is for. -/
theorem isSome_enumHint (v : Value) (properties : List String) :
    (Block.enumHint v properties).toOption.isSome = (Block.enumHint v []).toOption.isSome := by
  have h : Block.enumHint v properties =
      (fun hint => { hint with properties }) <$> Block.enumHint v [] := by
    unfold Block.enumHint
    split
    all_goals simp only [map_bind, map_pure]
  rw [h]
  cases Block.enumHint v [] <;> rfl

theorem exists_enumHints {notes : Notes} (hnotes : ofAddresses ownRegistry addresses = .ok notes) :
    ∃ enums, notes.enumHints = .ok enums := by
  cases henums : notes.enumHints with
  | ok enums => exact ⟨enums, rfl⟩
  | error e =>
    obtain ⟨⟨s, properties⟩, hmem, herror⟩ := exists_of_mapM_eq_error henums
    change Block.enumHint s.value properties = .error e at herror
    obtain ⟨property, hchoice⟩ := mem_of_choicesByPlace hmem
    obtain ⟨_, hv, _⟩ := ((ends_ofAddresses _ _).of_ok hnotes).choices _ hchoice
    obtain ⟨d, hd, _, h, f, hreaches, hs, _⟩ := exists_reaches_of_visits knows_ownRegistry areTidy hv
    have hsome := (Bool.and_eq_true_iff.mp (hreaches.isReadable hd)).2
    rw [← hs.value_eq, ← isSome_enumHint s.value properties, herror] at hsome
    cases hsome

/-! ### The set -/

/-- The identifiers of the bundled kinds of elements. -/
def identifiers : IdScheme where
  kinds := identifierKinds.map fun k => (k.2.1, k.2.2.1)

theorem hasWords_identifiers : identifiers.HasWords :=
  ⟨by decide, by decide, by decide, by decide⟩

/-- The parts of the metadata for which no walk is needed can be read. -/
theorem reads_parts :
    (Block.entries (definitionsSchema.get? "x-ubml-id-config")).toOption.any (fun config =>
      (Block.wholeNumber ((Value.lookup "digitLength" config).getD (.int 5))).toOption == some 5 &&
      (Block.wholeNumber ((Value.lookup "initOffset" config).getD (.int 1))).toOption == some 1) = true ∧
    (Block.entries (definitionsSchema.get? "$defs")).toOption.any (fun definitions =>
      (Metadata.elementKinds definitions).toOption.any (fun kinds =>
        kinds.map (fun k : ElementKind => (k.letters, k.elementType)) == identifiers.kinds) &&
      (Block.nestedHints definitions).toOption.isSome) = true ∧
    (documentSchemas.mapM fun d => Metadata.documentKind d.1 d.2).toOption.any
      (fun kinds : List DocumentKind => kinds.map (·.address) == addresses) = true ∧
    (Block.entries (definitionsSchema.get? "x-ubml-hierarchy")).toOption.any (fun hierarchy =>
      (Metadata.names (Value.lookup "parentFields" hierarchy) [.str "parent"]).toOption.isSome &&
      (Metadata.names (Value.lookup "childFields" hierarchy) [.str "children"]).toOption.isSome) =
        true ∧
    (Block.patternHints (definitionsSchema :: documentSchemas.map (·.2))).toOption.isSome = true ∧
    (Block.requiredHints (definitionsSchema.get? "x-ubml-required-hints")).toOption.isSome = true ∧
    (Block.members (indexSchema.get? "x-ubml-common-properties")).toOption.isSome = true := by
  decide +kernel

/-- The metadata of the set say what the walk has noted. -/
theorem exists_metadata : ∃ m notes, ofAddresses ownRegistry addresses = .ok notes ∧
    Metadata.ofSchemas indexSchema definitionsSchema documentSchemas ownRegistry = .ok m ∧
    m.referenceFields = notes.referenceFields ∧ m.ids = identifiers := by
  have hsome {α : Type} {x : Except Malformed α} (h : x.toOption.isSome = true) : ∃ a, x = .ok a := by
    obtain ⟨a, ha⟩ := Option.isSome_iff_exists.mp h
    exact ⟨a, toOption_eq_some_iff.mp ha⟩
  obtain ⟨notes, hnotes⟩ := exists_notes
  obtain ⟨enums, henums⟩ := exists_enumHints hnotes
  obtain ⟨hconfig, hshared, hdocuments, hhierarchy, hpatterns, hrequired, hcommon⟩ := reads_parts
  obtain ⟨config, hconfig, hnumbers⟩ := exists_of_any_toOption hconfig
  obtain ⟨shared, hshared, hkinds⟩ := exists_of_any_toOption hshared
  obtain ⟨documentKinds, hdocuments, haddresses⟩ := exists_of_any_toOption hdocuments
  obtain ⟨hierarchy, hhierarchy, hnames⟩ := exists_of_any_toOption hhierarchy
  simp only [Bool.and_eq_true, beq_iff_eq, toOption_eq_some_iff] at hnumbers haddresses
  rw [Bool.and_eq_true] at hkinds hnames
  obtain ⟨kinds, hkinds', hletters⟩ := exists_of_any_toOption hkinds.1
  obtain ⟨nested, hnested⟩ := hsome hkinds.2
  obtain ⟨parents, hparents⟩ := hsome hnames.1
  obtain ⟨children, hchildren⟩ := hsome hnames.2
  obtain ⟨patterns, hpatterns⟩ := hsome hpatterns
  obtain ⟨required, hrequired⟩ := hsome hrequired
  obtain ⟨common, hcommon⟩ := hsome hcommon
  have hids : identifiers.pattern? ≠ none := by
    rw [IdScheme.pattern?, if_pos hasWords_identifiers.isPlain]
    exact Option.some_ne_none _
  have hscheme : identifiers = { kinds := kinds.map fun k => (k.letters, k.elementType)
                                 digitLength := 5, initOffset := 1 } := by
    rw [beq_iff_eq.mp hletters]
    rfl
  refine ⟨_, notes, hnotes, Metadata.ofSchemas_eq_ok hconfig hnumbers.1 hnumbers.2 hshared hkinds'
    hdocuments (haddresses ▸ hnotes) hhierarchy (hscheme ▸ hids) hpatterns hnested henums hrequired
    hparents hchildren hcommon, rfl, hscheme.symm⟩

/-- The bundled schemas are built into a set, whose metadata say what the walk has noted. -/
theorem exists_bundled : ∃ m notes, ofAddresses ownRegistry addresses = .ok notes ∧
    m.referenceFields = notes.referenceFields ∧ m.ids = identifiers ∧ SchemaSet.bundled =
      { source := SchemaSet.bundledSource, index := indexSchema, definitions := definitionsSchema
        documents := documentSchemas, metadata := m
        registry := .ofSchemas (addressedSchemas ++ Metaschema.schemas) } := by
  obtain ⟨m, notes, hnotes, hmetadata, hfields, hids⟩ := exists_metadata
  refine ⟨m, notes, hnotes, hfields, hids, ?_⟩
  rw [SchemaSet.bundled, SchemaSet.ofSchemas_eq_ok (addressed_eq_addressedSchemas _) hmetadata]
  rfl

theorem registry_bundled : SchemaSet.bundled.registry =
    .ofSchemas (addressedSchemas ++ Metaschema.schemas) := by
  obtain ⟨_, _, _, _, _, h⟩ := exists_bundled
  rw [h]

theorem documents_bundled : SchemaSet.bundled.documents = documentSchemas := by
  obtain ⟨_, _, _, _, _, h⟩ := exists_bundled
  rw [h]

theorem definitions_bundled : SchemaSet.bundled.definitions = definitionsSchema := by
  obtain ⟨_, _, _, _, _, h⟩ := exists_bundled
  rw [h]

theorem ids_bundled : SchemaSet.bundled.metadata.ids = identifiers := by
  obtain ⟨_, _, _, _, hids, h⟩ := exists_bundled
  rw [h, hids]

theorem knows_bundled : Knows SchemaSet.bundled.registry :=
  registry_bundled ▸ knows_ofSchemas (List.Sublist.refl _)

/-- A property is one of references if it leads to letters. -/
theorem isReferenceField_bundled_iff {name : String} :
    SchemaSet.bundled.metadata.isReferenceField name = true ↔ ∃ letters, Refers name letters := by
  obtain ⟨_, notes, hnotes, hfields, _, h⟩ := exists_bundled
  rw [h, Metadata.isReferenceField, hfields, Notes.isSome_lookup_referenceFields]
  simp only [mem_fields_iff rfl knows_ownRegistry areTidy hnotes]

/-- A property accepts the letters that it leads to. -/
theorem Refers.accepted_bundled {name letters : String} (hrefers : Refers name letters)
    {accepted : List String}
    (haccepted : SchemaSet.bundled.metadata.acceptedLetters? name = some accepted) :
    accepted = [] ∨ letters ≠ anyKind ∧ letters ∈ accepted := by
  obtain ⟨_, notes, hnotes, hfields, _, h⟩ := exists_bundled
  rw [h, Metadata.acceptedLetters?, hfields] at haccepted
  exact Notes.accepts_of_mem_fields
    ((mem_fields_iff rfl knows_ownRegistry areTidy hnotes).mpr hrefers) haccepted

theorem mem_accepted_bundled_iff {name letters : String} (hany : ¬ Refers name anyKind)
    {accepted : List String}
    (haccepted : SchemaSet.bundled.metadata.acceptedLetters? name = some accepted) :
    letters ∈ accepted ↔ Refers name letters := by
  obtain ⟨_, notes, hnotes, hfields, _, h⟩ := exists_bundled
  have hiff {letters : String} := @mem_fields_iff _ rfl knows_ownRegistry areTidy _ hnotes name letters
  rw [h, Metadata.acceptedLetters?, hfields] at haccepted
  rw [← hiff] at hany ⊢
  exact Notes.mem_accepted_iff hany haccepted

/-- Content is checked as by a set without metadata. -/
theorem violations_bundled (type : Option String) (content : Value) :
    SchemaSet.bundled.violations type content = SchemaSet.violations
      { source := SchemaSet.bundledSource, index := indexSchema, definitions := definitionsSchema
        documents := documentSchemas, metadata := {}
        registry := .ofSchemas (addressedSchemas ++ Metaschema.schemas) } type content := by
  obtain ⟨_, _, _, _, _, h⟩ := exists_bundled
  rw [h]
  rfl

end BusinessModel.Schema.Bundled
