import BusinessModel.Proofs.Schema.Metaschema
import BusinessModel.Proofs.Schema.Walk
import BusinessModel.Schema.Set

/-!
What comes of building a set of schemas. The set is built or refused, or the error of a part that is
malformed is passed on: of a schema that is no mapping or cannot be checked, of a block of metadata
that does not have its form, or of the walk through the schemas.
-/

namespace BusinessModel

namespace Schema

section Flaws

variable (index definitions : Value) (documents : List (String × Value))

/-- The shared definitions, by their names. -/
def sharedDefinitions : List (Value × Value) := entriesOf (definitions.get? "$defs")

/-- A block of the shared definitions or of a document schema that entries are asked of. -/
inductive AsksEntries : Option Value → Prop where
  | definitions {keyword} :
      keyword ∈ ["x-ubml-id-config", "$defs", "x-ubml-hierarchy", "x-ubml-required-hints"] →
      AsksEntries (definitions.get? keyword)
  | document {type schema} : (type, schema) ∈ documents →
      AsksEntries (schema.get? "x-ubml-document")

/-- A part of the index, the shared definitions or a document schema that members are asked of. -/
inductive AsksMembers : Option Value → Prop where
  | detectBy {type schema} : (type, schema) ∈ documents →
      AsksMembers (Value.lookup "detectBy" (entriesOf (schema.get? "x-ubml-document")))
  | hierarchy {key} : key ∈ ["parentFields", "childFields"] →
      AsksMembers (Value.lookup key (entriesOf (definitions.get? "x-ubml-hierarchy")))
  | common : AsksMembers (index.get? "x-ubml-common-properties")
  | nested {name definition} : (name, definition) ∈ sharedDefinitions definitions →
      AsksMembers (Value.lookup "nestedProperties" (entriesOf (Block.about definition)))
  | samples {schema entries} : schema = definitions ∨ schema ∈ documents.map (·.2) →
      entries ∈ Block.mappings schema → AsksMembers (Value.lookup "examples" entries)

end Flaws

/-- The addresses that the walk starts from. -/
def documentAddresses (documents : List (String × Value)) : List String :=
  documents.map fun d => ((d.2.get? "$id").getD .null).text

/-- The walk through the document schemas takes notes on a schema. -/
abbrev IsNoted (documents : List (String × Value)) (registry : Registry) : Located → String → Prop :=
  Walk.TakesNotes registry (documentAddresses documents)

/-- What a schema says about the words that are mistaken for its own. -/
def mistakesOf (s : Located) : Option Value :=
  Value.lookup "valueMistakes" (entriesOf (s.value.get? "x-ubml"))

/-- The number of a setting of identifiers. -/
def settingOf (definitions : Value) (key : String) : Option Value :=
  Value.lookup key (entriesOf (definitions.get? "x-ubml-id-config"))

/-- A flaw in a set of schemas, with the error that it leads to when the metadata is read. -/
inductive Flaw (index definitions : Value) (documents : List (String × Value))
    (registry : Registry) : Malformed → Prop where
  | entries {block} : AsksEntries definitions documents block → LacksEntries block →
      Flaw index definitions documents registry .noEntries
  | members {collection} : AsksMembers index definitions documents collection →
      LacksMembers collection → Flaw index definitions documents registry .wrongType
  | about {name definition} : (name, definition) ∈ sharedDefinitions definitions →
      LacksEntries (Block.about definition) → Flaw index definitions documents registry .wrongType
  | setting {key v} : key ∈ ["digitLength", "initOffset"] → settingOf definitions key = some v →
      (v = .null ∨ v.isMap = true ∨ ∃ vs, v = .list vs) →
      Flaw index definitions documents registry .wrongType
  | infinite {key negative} : key ∈ ["digitLength", "initOffset"] →
      settingOf definitions key = some (.float (.infinite negative)) →
      Flaw index definitions documents registry .infinite
  | letters {kinds digitLength initOffset} :
      Metadata.elementKinds (sharedDefinitions definitions) = .ok kinds →
      IdScheme.pattern? { kinds := kinds.map fun k => (k.letters, k.elementType)
                          digitLength, initOffset } = none →
      Flaw index definitions documents registry .badLetters
  | field {key names name} : key ∈ ["parentFields", "childFields"] →
      Value.lookup key (entriesOf (definitions.get? "x-ubml-hierarchy")) = some names →
      name ∈ names.members?.getD [] → (∀ s, name ≠ .scalar s) →
      Flaw index definitions documents registry .wrongType
  | hint {name hint} : (name, hint) ∈ entriesOf (definitions.get? "x-ubml-required-hints") →
      hint.isMap = false → Flaw index definitions documents registry .noEntries
  | walk {e} : Walk.Halts registry (documentAddresses documents) e →
      Flaw index definitions documents registry e
  | choice {s property v} : IsNoted documents registry s property →
      s.value.get? "enum" = some v → v.members? = none →
      Flaw index definitions documents registry .wrongType
  | mistakes {s property} : IsNoted documents registry s property → LacksEntries (mistakesOf s) →
      Flaw index definitions documents registry .noEntries
  | advice {s property word advice} : IsNoted documents registry s property →
      (word, advice) ∈ entriesOf (mistakesOf s) → advice.isMap = false →
      Flaw index definitions documents registry .noEntries

section Reading

variable {index definitions : Value} {documents : List (String × Value)} {registry : Registry}

/-- The set is refused for the error, or the error comes from a flaw. -/
abbrev IsAccounted (index definitions : Value) (documents : List (String × Value))
    (registry : Registry) (e : Malformed) : Prop :=
  e.IsRefused ∨ Flaw index definitions documents registry e

theorem ends_setting (key : String) (hkey : key ∈ ["digitLength", "initOffset"]) (default : Int) :
    Ends (IsAccounted index definitions documents registry) (fun _ => True)
      (Block.wholeNumber ((settingOf definitions key).getD (.int default))) := by
  cases hsetting : settingOf definitions key with
  | none => exact .ok trivial
  | some v =>
    refine (Block.ends_wholeNumber v).mono (fun e he => ?_) fun _ h => h
    rcases he with he | ⟨rfl, negative, rfl⟩ | ⟨rfl, hv⟩
    · exact .inl he
    · exact .inr (.infinite hkey hsetting)
    · exact .inr (.setting hkey hsetting hv)

theorem ends_block {block : Option Value} (hblock : AsksEntries definitions documents block) :
    Ends (IsAccounted index definitions documents registry) (· = entriesOf block)
      (Block.entries block) :=
  (Block.ends_entries block).mono (fun _ he => .inr (he.1 ▸ .entries hblock he.2)) fun _ h => h

theorem ends_members {collection : Option Value}
    (hcollection : AsksMembers index definitions documents collection) :
    Ends (IsAccounted index definitions documents registry)
      (· = (collection.bind Value.members?).getD []) (Block.members collection) :=
  (Block.ends_members collection).mono (fun _ he => .inr (he.1 ▸ .members hcollection he.2))
    fun _ h => h

theorem ends_about {name definition : Value}
    (hmem : (name, definition) ∈ sharedDefinitions definitions) (word : String) :
    Ends (IsAccounted index definitions documents registry)
      (fun found => ∀ es, found = some es → es = entriesOf (Block.about definition))
      (Block.entriesWith? (Block.about definition) word) :=
  (Block.ends_entriesWith? _ word).mono (fun _ he => .inr (he.1 ▸ .about hmem he.2)) fun _ h => h

theorem ends_elementKinds :
    Ends (IsAccounted index definitions documents registry) (fun _ => True)
      (Metadata.elementKinds (sharedDefinitions definitions)) := by
  refine .foldlM (R := fun _ => True) (fun d hd kinds _ => ?_) trivial
  obtain ⟨name, definition⟩ := d
  refine .bind (.bind (ends_about hd "prefix") fun found _ => ?_) fun kind (_ : True) => ?_
  · cases found <;> exact .ok trivial
  · cases kind with
    | none => exact .ok trivial
    | some kind =>
      dsimp only
      split
      · exact .error (.inl .invalid)
      · exact .ok trivial

theorem ends_documentKind {type : String} {schema : Value} (hmem : (type, schema) ∈ documents) :
    Ends (IsAccounted index definitions documents registry)
      (fun kind => kind.address = ((schema.get? "$id").getD .null).text)
      (Metadata.documentKind type schema) := by
  refine .bind (ends_block (.document hmem)) fun block hblock => ?_
  extract_lets declared
  split
  · exact .error (.inl .invalid)
  · subst hblock
    exact .bind (ends_members (.detectBy hmem)) fun _ _ => .ok rfl

theorem ends_names {key : String} (hkey : key ∈ ["parentFields", "childFields"])
    (default : List Value) :
    Ends (IsAccounted index definitions documents registry) (fun _ => True)
      (Metadata.names (Value.lookup key (entriesOf (definitions.get? "x-ubml-hierarchy")))
        default) := by
  refine .bind (ends_members (.hierarchy hkey)) fun members hmembers => ?_
  cases members with
  | nil => exact .ok trivial
  | cons first rest =>
    dsimp only
    split
    · exact .ok trivial
    · next hall =>
      obtain ⟨name, hname, hscalar⟩ := List.all_eq_false.mp (Bool.eq_false_iff.mpr hall)
      rw [hmembers] at hname
      cases hnames : Value.lookup key (entriesOf (definitions.get? "x-ubml-hierarchy")) with
      | none => simp [hnames] at hname
      | some names =>
        rw [hnames, Option.bind_some] at hname
        refine .error (.inr (.field hkey hnames hname fun s hs => ?_))
        rw [hs] at hscalar
        exact hscalar rfl

theorem ends_patternHints :
    Ends (IsAccounted index definitions documents registry) (fun _ => True)
      (Block.patternHints (definitions :: documents.map (·.2))) := by
  refine .bind (.mapM (R := fun _ => True) fun schema hschema => ?_) fun _ _ => .ok trivial
  obtain ⟨v, hv, hentries⟩ := List.mem_flatMap.mp hschema
  have hasks : AsksMembers index definitions documents (Value.lookup "examples" schema) :=
    .samples (List.mem_cons.mp hv) hentries
  unfold Block.patternHint?
  split
  · split
    · exact .ok trivial
    · extract_lets samples
      refine .bind (Q := fun _ => True) ?_ fun _ _ => .ok trivial
      cases hsamples : samples with
      | none => exact .ok trivial
      | some v =>
        obtain ⟨hlookup, hset⟩ := Option.filter_eq_some_iff.mp hsamples
        refine .bind ((Block.ends_first hset).mono (fun e he => ?_) fun _ h => h)
          fun _ _ => .ok trivial
        rcases he with he | ⟨rfl, hnone⟩
        · exact .inl he
        · exact .inr (.members hasks ⟨v, hlookup, hset, hnone⟩)
  · exact .ok trivial

theorem ends_nestedHints :
    Ends (IsAccounted index definitions documents registry) (fun _ => True)
      (Block.nestedHints (sharedDefinitions definitions)) := by
  refine .bind (.mapM (R := fun _ => True) fun d hd => ?_) fun _ _ => .ok trivial
  obtain ⟨name, definition⟩ := d
  refine .bind (ends_about hd "parentProperty") fun found hfound => ?_
  cases found with
  | none => exact .ok trivial
  | some es =>
    rw [hfound es rfl]
    exact .bind (ends_members (.nested hd)) fun _ _ => .ok trivial

theorem ends_requiredHints :
    Ends (IsAccounted index definitions documents registry) (fun _ => True)
      (Block.requiredHints (definitions.get? "x-ubml-required-hints")) := by
  refine .bind (ends_block (.definitions (by simp))) fun es hes => ?_
  subst hes
  refine .bind (.mapM (R := fun _ => True) fun e he => ?_) fun _ _ => .ok trivial
  obtain ⟨name, hint⟩ := e
  cases hint with
  | map es => exact .ok trivial
  | _ => exact .error (.inr (.hint he rfl))

theorem ends_enumHint {s : Located} {property : String} (hs : IsNoted documents registry s property)
    (properties : List String) :
    Ends (IsAccounted index definitions documents registry) (fun _ => True)
      (Block.enumHint s.value properties) := by
  have hchoice {v : Value} (hv : s.value.get? "enum" = some v) (hnone : v.members? = none) :
      IsAccounted index definitions documents registry .wrongType := .inr (.choice hs hv hnone)
  unfold Block.enumHint
  extract_lets finish
  have hfinish (values : List Value) :
      Ends (IsAccounted index definitions documents registry) (fun _ => True) (finish values) := by
    refine .bind ((Block.ends_entries _).mono (fun e he => ?_) fun _ h => h) fun about habout => ?_
    · exact .inr (he.1 ▸ .walk (.about hs he.2))
    · subst habout
      refine .bind ((Block.ends_entries _).mono (fun e he => ?_) fun _ h => h) fun es hes => ?_
      · exact .inr (he.1 ▸ .mistakes hs he.2)
      · subst hes
        refine .bind (.mapM (R := fun _ => True) fun e he => ?_) fun _ _ => .ok trivial
        obtain ⟨word, advice⟩ := e
        cases advice with
        | map es => exact .ok trivial
        | _ => exact .error (.inr (.advice hs he rfl))
  split
  · next henum => exact .bind (.error (hchoice henum rfl)) fun values (_ : True) => hfinish values
  · exact .bind (.ok trivial) fun values (_ : True) => hfinish values
  · next x hnull hstr henum =>
    refine .bind (.error (hchoice henum ?_)) fun values (_ : True) => hfinish values
    cases x with
    | str text => exact absurd rfl (hstr text)
    | _ => rfl
  · next hnull hstr hscalar =>
    refine .bind ((Block.ends_members _).mono (fun e he => ?_) fun _ _ => trivial)
      fun values _ => hfinish values
    obtain ⟨rfl, v, hv, _, hnone⟩ := he
    exact hchoice hv hnone

theorem mem_of_choicesByPlace {notes : Notes} {s : Located} {properties : List String}
    (h : (s, properties) ∈ notes.choicesByPlace) : ∃ property, (s, property) ∈ notes.choices := by
  unfold Notes.choicesByPlace at h
  extract_lets found schemas at h
  have hschemas (cs : List (Located × String)) : ∀ seen : List Located,
      s ∈ cs.foldl (fun seen c => if seen.any (·.place == c.1.place) then seen else seen ++ [c.1])
        seen → s ∈ seen ∨ ∃ property, (s, property) ∈ cs := by
    induction cs with
    | nil => exact fun seen hs => .inl hs
    | cons c rest ih =>
      intro seen hs
      rw [List.foldl_cons] at hs
      rcases ih _ hs with hs | ⟨property, hmem⟩
      · split at hs
        · exact .inl hs
        · rcases List.mem_append.mp hs with hs | hs
          · exact .inl hs
          · rw [List.mem_singleton.mp hs]
            exact .inr ⟨c.2, List.mem_cons_self⟩
      · exact .inr ⟨property, List.mem_cons_of_mem _ hmem⟩
  obtain ⟨t, ht, heq⟩ := List.mem_map.mp h
  cases heq
  rcases hschemas _ _ ht with hnil | ⟨property, hmem⟩
  · cases hnil
  · exact ⟨property, List.mem_reverse.mp hmem⟩

theorem ends_enumHints {notes : Notes}
    (hnotes : Walk.AreSound registry (documentAddresses documents) notes) :
    Ends (IsAccounted index definitions documents registry) (fun _ => True) notes.enumHints := by
  refine (Ends.mapM (R := fun _ => True) fun c hc => ?_).mono (fun _ h => h) fun _ _ => trivial
  obtain ⟨s, properties⟩ := c
  obtain ⟨property, hproperty⟩ := mem_of_choicesByPlace hc
  exact ends_enumHint (hnotes.choices _ hproperty) properties

/-- Reading the metadata of a set fails only for its flaws, or the set is refused. The properties that
refer to elements are those that the walk finds. -/
theorem ends_metadata :
    Ends (IsAccounted index definitions documents registry)
      (fun m => ∃ notes, Walk.ofAddresses registry (documentAddresses documents) = .ok notes ∧
        m.referenceFields = notes.referenceFields)
      (Metadata.ofSchemas index definitions documents registry) := by
  refine .bind (ends_block (.definitions (by simp))) fun config hconfig => ?_
  subst hconfig
  refine .bind (ends_setting "digitLength" (by simp) 5) fun digitLength _ => ?_
  refine .bind (ends_setting "initOffset" (by simp) 1) fun initOffset _ => ?_
  refine .bind (ends_block (.definitions (by simp))) fun shared hshared => ?_
  subst hshared
  have hkinds : Ends (IsAccounted index definitions documents registry)
      (fun kinds => Metadata.elementKinds (sharedDefinitions definitions) = .ok kinds)
      (Metadata.elementKinds (sharedDefinitions definitions)) :=
    ⟨ends_elementKinds.of_error, id⟩
  refine .bind hkinds fun kinds hkinds => ?_
  refine .bind (.mapM_forall₂ fun d hd => ends_documentKind hd) fun documentKinds hdocuments => ?_
  have haddresses : documentKinds.map (·.address) = documentAddresses documents := by
    refine Eq.symm (List.forall₂_eq_eq_eq ▸ ?_)
    exact List.forall₂_map_left_iff.mpr (List.forall₂_map_right_iff.mpr
      (hdocuments.imp fun _ _ h => h.symm))
  rw [haddresses]
  have hwalk : Ends (IsAccounted index definitions documents registry)
      (fun notes => Walk.ofAddresses registry (documentAddresses documents) = .ok notes)
      (Walk.ofAddresses registry (documentAddresses documents)) :=
    ⟨fun he => .inr (.walk ((Walk.ends_ofAddresses ..).of_error he)), id⟩
  refine .bind hwalk fun notes hnotes => ?_
  refine .bind (ends_block (.definitions (by simp))) fun hierarchy hhierarchy => ?_
  subst hhierarchy
  extract_lets ids
  split
  · next hpattern =>
    refine .bind (.error (.inr (.letters hkinds (Option.isNone_iff_eq_none.mp hpattern))))
      fun _ (h : False) => h.elim
  · refine .bind ends_patternHints fun _ _ => .bind ends_nestedHints fun _ _ => ?_
    refine .bind (ends_enumHints ((Walk.ends_ofAddresses ..).of_ok hnotes)) fun _ _ => ?_
    refine .bind ends_requiredHints fun _ _ => .bind (ends_names (by simp) _) fun _ _ => ?_
    refine .bind (ends_names (by simp) _) fun _ _ => .bind (ends_members .common) fun _ _ => ?_
    exact .ok ⟨notes, hnotes, rfl⟩

end Reading

section Parts

variable {index definitions : Value} {documents : List (String × Value)} {registry : Registry}
  {config shared hierarchy : List (Value × Value)} {digitLength initOffset : Int}
  {kinds : List ElementKind} {documentKinds : List DocumentKind} {notes : Notes}
  {patterns : List PatternHint} {nested : List NestedHint} {enums : List EnumHint}
  {required : List (String × RequiredHint)} {parents children common : List Value}

/-- The metadata are read from a set if its parts are. -/
theorem Metadata.ofSchemas_eq_ok
    (hconfig : Block.entries (definitions.get? "x-ubml-id-config") = .ok config)
    (hdigits : Block.wholeNumber ((Value.lookup "digitLength" config).getD (.int 5)) =
      .ok digitLength)
    (hoffset : Block.wholeNumber ((Value.lookup "initOffset" config).getD (.int 1)) = .ok initOffset)
    (hshared : Block.entries (definitions.get? "$defs") = .ok shared)
    (hkinds : elementKinds shared = .ok kinds)
    (hdocuments : documents.mapM (fun d => documentKind d.1 d.2) = .ok documentKinds)
    (hnotes : Walk.ofAddresses registry (documentKinds.map (·.address)) = .ok notes)
    (hhierarchy : Block.entries (definitions.get? "x-ubml-hierarchy") = .ok hierarchy)
    (hids : IdScheme.pattern? { kinds := kinds.map fun k => (k.letters, k.elementType)
                                digitLength, initOffset } ≠ none)
    (hpatterns : Block.patternHints (definitions :: documents.map (·.2)) = .ok patterns)
    (hnested : Block.nestedHints shared = .ok nested) (henums : notes.enumHints = .ok enums)
    (hrequired : Block.requiredHints (definitions.get? "x-ubml-required-hints") = .ok required)
    (hparents : names (Value.lookup "parentFields" hierarchy) [.str "parent"] = .ok parents)
    (hchildren : names (Value.lookup "childFields" hierarchy) [.str "children"] = .ok children)
    (hcommon : Block.members (index.get? "x-ubml-common-properties") = .ok common) :
    ofSchemas index definitions documents registry = .ok
      { ids := { kinds := kinds.map fun k => (k.letters, k.elementType), digitLength, initOffset }
        kinds, documents := documentKinds, referenceFields := notes.referenceFields
        hints := { patterns, nested, enums, required }
        parentFields := parents, childFields := children, commonProperties := common } := by
  have hsome := Option.isNone_eq_false_iff.mpr (Option.isSome_iff_ne_none.mpr hids)
  simp only [ofSchemas, hconfig, hdigits, hoffset, hshared, hkinds, hdocuments, hnotes, hhierarchy,
    hsome, hpatterns, hnested, henums, hrequired, hparents, hchildren, hcommon, bind, Except.bind]
  rfl

end Parts

end Schema

namespace SchemaSet

open Schema

theorem addressOf_eq_error {v : Value} {e : SchemaSetError} (h : addressOf v = .error e) :
    e = .noMapping ∧ v.isMap = false := by
  cases v with
  | map es => cases h
  | _ =>
    cases h
    exact ⟨rfl, rfl⟩

/-- Why the schemas of a set are not taken: the set is refused, or one of them is no mapping or cannot
be checked. -/
inductive Rejects (source : String) (schemas : List (String × Value)) : SchemaSetError → Prop where
  | refused {reason} : Rejects source schemas (.refused source reason)
  | noMapping {s} : s ∈ schemas → s.2.isMap = false → Rejects source schemas .noMapping
  | fault {s cause} : s ∈ schemas → Metaschema.complaint? s.2 = .error cause →
      Rejects source schemas (.fault cause)

theorem ends_addressed (source : String) (schemas : List (String × Value)) :
    Ends (Rejects source schemas) (fun _ => True) (addressed source schemas) := by
  refine .foldlM (R := fun _ => True) (fun s hs seen _ => ?_) trivial
  obtain ⟨label, v⟩ := s
  refine .bind (Q := fun _ => True) ⟨fun he => ?_, fun _ => trivial⟩ fun address _ => ?_
  · obtain ⟨rfl, hmap⟩ := addressOf_eq_error he
    exact .noMapping hs hmap
  · cases address with
    | none => exact .error .refused
    | some address =>
      dsimp only
      split
      · exact .error .refused
      · cases hcomplaint : Metaschema.complaint? v with
        | error cause => exact .error (.fault hs hcomplaint)
        | ok complaint =>
          cases complaint with
          | some message => exact .error .refused
          | none => exact .ok trivial

theorem refusal_cases (source : String) (e : Malformed) :
    (∃ reason, refusal source e = .refused source reason) ∨
      (¬ e.IsRefused ∧ refusal source e = .malformed e) := by
  cases e with
  | invalid report => exact .inl ⟨_, rfl⟩
  | missingKey key => exact .inl ⟨_, rfl⟩
  | reference fault =>
    cases fault with
    | badIndex report => exact .inl ⟨_, rfl⟩
    | _ => exact .inr ⟨nofun, rfl⟩
  | _ => exact .inr ⟨nofun, rfl⟩

section Building

variable {source : String} {index definitions : Value} {documents : List (String × Value)}
  {schemas : List (String × Value)}
  (h : addressed source (labelled index definitions documents) = .ok schemas)

include h

theorem ofSchemas_eq_error {cause : Malformed}
    (hmetadata : Metadata.ofSchemas index definitions documents (.ofSchemas schemas) =
      .error cause) :
    ofSchemas source index definitions documents = .error (refusal source cause) := by
  simp only [ofSchemas, h, hmetadata, bind, Except.bind]
  rfl

theorem ofSchemas_eq_ok {metadata : Metadata}
    (hmetadata : Metadata.ofSchemas index definitions documents (.ofSchemas schemas) =
      .ok metadata) :
    ofSchemas source index definitions documents = .ok
      { source, index, definitions, documents, metadata
        registry := .ofSchemas (schemas ++ Metaschema.schemas) } := by
  simp only [ofSchemas, h, hmetadata, bind, Except.bind]
  rfl

end Building

/-- A schema with an address, with which nothing is wrong. -/
def HasAddress (v : Value) (address : String) : Prop :=
  addressOf v = .ok (some address) ∧ Metaschema.complaint? v = .ok none

/-- Schemas with which nothing is wrong are taken by their addresses, if these differ. -/
theorem addressed_eq_ok (source : String) {schemas entries : List (String × Value)}
    (h : List.Forall₂ (fun s e => s.2 = e.2 ∧ HasAddress e.2 e.1) schemas entries)
    (hdistinct : entries.Pairwise fun a b => a.1 ≠ b.1) :
    addressed source schemas = .ok entries := by
  refine foldlM_append_eq_ok (fun seen s e hs hseen => ?_) h hdistinct [] (by simp)
  obtain ⟨label, v⟩ := s
  obtain ⟨rfl, haddress, hcomplaint⟩ := hs
  have hfresh : seen.any (·.1 == e.1) = false :=
    List.any_eq_false.mpr fun z hz heq => hseen z hz (by simpa using heq)
  simp only [haddress, hcomplaint, hfresh, bind, Except.bind, pure, Except.pure, Bool.false_eq_true,
    if_false]

/-- A mapping with an address whose keywords are as the schema of schemas asks. -/
theorem hasAddress_of_isSchema {least : Nat} {entries : List (String × Value)} {address : String}
    (haddress : entries.lookup "$id" = some (.str address)) (hne : address.isEmpty = false)
    (h : Metaschema.IsSchema least (.object entries)) (hleast : least + 3 ≤ checkDepth) :
    HasAddress (.object entries) address := by
  refine ⟨?_, Metaschema.complaint?_eq_none (Metaschema.meets_schema h) hleast⟩
  have hlookup := Value.lookup_object entries "$id"
  rw [haddress] at hlookup
  simp only [Value.object, Value.entries] at hlookup
  rw [Value.object, addressOf, hlookup]
  simp [Value.str?, hne]

/-- The document schema of a set that refers to a schema outside it. -/
def danglingSchema : Value :=
  .object [("$id", "urn:doc"),
    ("properties", .object [("a", .object [("$ref", "urn:nowhere")])])]

/-- Each schema of the set has an address and is a schema. -/
theorem hasAddress_danglingSet :
    List.Forall₂ (fun s e : String × Value => s.2 = e.2 ∧ HasAddress e.2 e.1)
      (labelled (.object [("$id", "urn:root")]) (.object [("$id", "urn:defs")])
        [("doc", danglingSchema)])
      [("urn:root", .object [("$id", "urn:root")]), ("urn:defs", .object [("$id", "urn:defs")]),
        ("urn:doc", danglingSchema)] := by
  have haddresses : (Pattern.parse? "^[^#]*#?$").any (fun p =>
      ["urn:root", "urn:defs", "urn:doc"].all p.search) = true := by
    decide +kernel
  obtain ⟨p, hp, hsearch⟩ := (Option.any_eq_true _ _).mp haddresses
  have hid (address : String) (h : address ∈ ["urn:root", "urn:defs", "urn:doc"]) :
      Metaschema.Accepts 7 "$id" (.str address) := by
    have haccepts : Metaschema.Accepts 2 "$id" (.str address) :=
      Metaschema.accepts_id hp (List.all_eq_true.mp hsearch address h)
    exact haccepts.mono (by omega)
  have hplain (address : String) (h : address ∈ ["urn:root", "urn:defs", "urn:doc"])
      (hne : address.isEmpty = false) : HasAddress (.object [("$id", .str address)]) address := by
    have hschema : Metaschema.IsSchema 7 (.object [("$id", .str address)]) := by
      refine .inr ⟨_, rfl, fun e he => ?_⟩
      rw [List.mem_singleton.mp he]
      exact hid address h
    exact hasAddress_of_isSchema rfl hne hschema (by decide)
  have hreference : Metaschema.IsSchema 2 (.object [("$ref", "urn:nowhere")]) := by
    refine .inr ⟨_, rfl, fun e he => ?_⟩
    rw [List.mem_singleton.mp he]
    exact Metaschema.accepts_reference
  have hdangling : Metaschema.IsSchema 7 danglingSchema := by
    refine .inr ⟨_, rfl, fun e he => ?_⟩
    rcases List.mem_cons.mp he with rfl | he
    · exact hid _ (by simp)
    · rw [List.mem_singleton.mp he]
      refine Metaschema.accepts_table (by simp) fun e he => ?_
      rw [List.mem_singleton.mp he]
      exact Metaschema.meets_schema hreference
  exact .cons ⟨rfl, hplain _ (by simp) (by decide)⟩ (.cons ⟨rfl, hplain _ (by simp) (by decide)⟩
    (.cons ⟨rfl, hasAddress_of_isSchema rfl (by decide) hdangling (by decide)⟩ .nil))

/-- The reference that keeps metadata from being read. -/
def referenceFault? : Except Malformed Metadata → Option Fault
  | .error (.reference fault) => some fault
  | _ => none

theorem eq_of_referenceFault? {r : Except Malformed Metadata} {fault : Fault}
    (h : referenceFault? r = some fault) : r = .error (.reference fault) := by
  unfold referenceFault? at h
  split at h
  · rw [Option.some.inj h]
  · cases h

end SchemaSet

end BusinessModel
