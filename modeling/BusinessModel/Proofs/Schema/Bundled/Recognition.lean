import BusinessModel.Proofs.Schema.Bundled.Agreement

/-!
What the bundled schemas take for an identifier is what their scheme of identifiers takes for one. The
patterns are written out definition by definition, and the one for elements of all kinds repeats the
letters; the scheme makes its own pattern of the letters that the definitions declare.
-/

namespace BusinessModel.Schema.Bundled

open IdScheme

/-! ### Definitions of texts -/

/-- A definition recognises the texts with a property: its pattern matches these, and they are the texts
in which a check against the definition finds nothing wrong. -/
structure Recognises (definition : Value) (p : String → Prop) : Prop where
  search : ∃ written pattern, definition.get? "pattern" = some (.str written) ∧
    Pattern.parse? written = some pattern ∧ ∀ text, pattern.search text = true ↔ p text
  check : ∀ r depth scope place text,
    check r (depth + 1) scope ⟨definition, place⟩ (.str text) = .ok [] ↔ p text

theorem Recognises.congr {definition : Value} {p q : String → Prop} (h : Recognises definition p)
    (hiff : ∀ text, p text ↔ q text) : Recognises definition q := by
  obtain ⟨written, pattern, hwritten, hpattern, hsearch⟩ := h.search
  exact ⟨⟨written, pattern, hwritten, hpattern, fun text => (hsearch text).trans (hiff text)⟩,
    fun r depth scope place text => (h.check r depth scope place text).trans (hiff text)⟩

/-- The keywords of a definition of texts with a pattern. Examples and advice ask for nothing. -/
def textKeywords (written : String) (examples about : Value) : List (String × Value) :=
  [("type", .str "string"), ("pattern", .str written), ("examples", examples), ("x-ubml", about)]

theorem recognises_of_parse {written : String} {pattern : Pattern} (examples about : Value)
    (hparse : Pattern.parse? written = some pattern) :
    Recognises (.object (textKeywords written examples about)) fun text =>
      pattern.search text = true := by
  refine ⟨⟨written, pattern, rfl, hparse, fun _ => Iff.rfl⟩, fun r depth scope place text => ?_⟩
  rw [check_eq_nil_iff rfl]
  constructor
  · intro h
    have hmem : (.str "pattern", Located.part ⟨_, place⟩ 1 (.str written)) ∈
        (Located.mk (.object (textKeywords written examples about)) place).entries :=
      Located.mem_entries_iff.mpr ⟨1, _, rfl, rfl⟩
    exact (Site.pattern_eq_nil_iff rfl rfl hparse).mp (h _ _ hmem)
  · intro h keyword argument hmem
    obtain ⟨i, v, hv, rfl⟩ := Located.mem_entries_iff.mp hmem
    have hentry := List.mem_of_getElem? hv
    simp only [textKeywords, Value.object, Value.entries, List.map_cons, List.map_nil, List.mem_cons,
      List.not_mem_nil, or_false, Prod.mk.injEq] at hentry
    rcases hentry with ⟨hkeyword, rfl⟩ | ⟨hkeyword, rfl⟩ | ⟨hkeyword, rfl⟩ | ⟨hkeyword, rfl⟩
    all_goals cases hkeyword
    · exact (Site.type_eq_nil_iff rfl rfl).mpr rfl
    · exact (Site.pattern_eq_nil_iff rfl rfl hparse).mpr h
    · exact (Site.complaint_eq_nil_iff rfl).mpr rfl
    · exact (Site.complaint_eq_nil_iff rfl).mpr rfl

/-! ### Definitions of identifiers -/

section Definition

variable {name definition : Value} {kind : ElementKind}

theorem exists_of_mem_definitions
    (hmem : (name, definition) ∈ Schema.sharedDefinitions SchemaSet.bundled.definitions) :
    ∃ e ∈ sharedDefinitions, name = .str e.1 ∧ definition = e.2.value := by
  have hentries : Schema.sharedDefinitions definitionsSchema =
      (Form.namedValues sharedDefinitions).map fun e => (.str e.1, e.2) := rfl
  rw [definitions_bundled, hentries, Form.namedValues_eq, List.map_map] at hmem
  obtain ⟨e, he, heq⟩ := List.mem_map.mp hmem
  obtain ⟨rfl, rfl⟩ := Prod.mk.inj heq
  exact ⟨e, he, rfl, rfl⟩

theorem not_declares {es : List (String × Form)}
    (hall : es.all (fun e =>
      (Metadata.elementKind? (.str e.1) e.2.value).toOption.any Option.isNone) = true)
    {e : String × Form} (he : e ∈ es) :
    Metadata.elementKind? (.str e.1) e.2.value ≠ .ok (some kind) := by
  intro hkind
  have hnone := List.all_eq_true.mp hall e he
  rw [hkind] at hnone
  cases hnone

/-- The definitions that declare letters are those of identifiers of a kind. -/
theorem exists_identifier {e : String × Form} (he : e ∈ sharedDefinitions)
    (hkind : Metadata.elementKind? (.str e.1) e.2.value = .ok (some kind)) :
    ∃ k ∈ identifierKinds, e.2 = identifier k.2.1 k.2.2.1 k.2.2.2.1 k.2.2.2.2 ∧
      kind.letters = k.2.1 := by
  rcases List.mem_append.mp he with he | he
  · rcases List.mem_append.mp he with he | he
    · exact (not_declares (by decide +kernel) he hkind).elim
    · obtain ⟨⟨name, letters, elementType, documentType, humanName⟩, hk, rfl⟩ := List.mem_map.mp he
      have hread : Metadata.elementKind? (.str name)
          (identifier letters elementType documentType humanName).value =
          .ok (some ⟨letters, elementType, .str documentType, humanName⟩) := rfl
      cases hread.symm.trans hkind
      exact ⟨_, hk, rfl, rfl⟩
  · exact (not_declares (by decide +kernel) he hkind).elim

end Definition

theorem ne_anyKind {letters : String} (hletters : letters ∈ kindLetters) : letters ≠ Walk.anyKind := by
  rintro rfl
  exact absurd hletters (by decide)

theorem identifier_value {letters : String} (hletters : letters ∈ kindLetters)
    (elementType documentType humanName : String) :
    (identifier letters elementType documentType humanName).value =
      .object (textKeywords (patternFor letters) (.texts [letters ++ "00001"])
        (.object [("prefix", .str letters), ("elementType", .str elementType),
          ("documentType", .str documentType), ("humanName", .str humanName),
          ("errorHint", .str (humanName ++ "s are " ++ letters ++ " followed by 5+ digits (e.g., " ++
            (letters ++ "00001") ++ ")."))])) := by
  rw [patternFor, if_neg (ne_anyKind hletters)]
  rfl

/-- A definition with the pattern for letters recognises the identifiers with these letters, or all. -/
theorem recognises_patternFor {letters : String} (hletters : letters ∈ Walk.anyKind :: kindLetters)
    (examples about : Value) :
    Recognises (.object (textKeywords (patternFor letters) examples about)) fun text =>
      ∃ w ∈ kindLetters, (letters = Walk.anyKind ∨ w = letters) ∧ IsNumbered w 5 text :=
  (recognises_of_parse examples about
    (beq_iff_eq.mp (List.all_eq_true.mp parse_patternFor letters hletters))).congr fun _ =>
      search_patternOfLetters_iff hletters

/-! ### Identifiers of the scheme -/

theorem isValid_bundled_iff {text : String} : SchemaSet.bundled.metadata.ids.isValid text = true ↔
    ∃ w ∈ kindLetters, IsNumbered w 5 text := by
  constructor
  · intro h
    rw [ids_bundled] at h
    obtain ⟨p, hp, hnumbered⟩ := (isValid_iff hasWords_identifiers text).mp h
    obtain ⟨k, hk, rfl⟩ := List.mem_map.mp hp
    exact ⟨k.2.1, List.mem_map_of_mem hk, hnumbered⟩
  · rintro ⟨w, hw, h⟩
    exact isValid_bundled hw h

theorem hasLetters_bundled_iff {text letters : String} (hletters : letters ∈ kindLetters) :
    SchemaSet.bundled.metadata.ids.isValid text = true ∧
      SchemaSet.bundled.metadata.ids.letters? text = some letters ↔ IsNumbered letters 5 text := by
  constructor
  · rintro ⟨hvalid, h⟩
    obtain ⟨w, hw, hnumbered⟩ := isValid_bundled_iff.mp hvalid
    cases (letters_bundled hw hnumbered).symm.trans h
    exact hnumbered
  · intro h
    exact ⟨isValid_bundled hletters h, letters_bundled hletters h⟩

/-- The bundled schemas and the scheme of identifiers agree. The definitions that declare letters
recognise the valid identifiers with these letters, and `AnyRef` recognises all valid identifiers. These
are also the texts that are checked as references below a property of references. -/
theorem definitions_recognise_identifiers :
    (∀ name definition kind,
      (name, definition) ∈ Schema.sharedDefinitions SchemaSet.bundled.definitions →
      Metadata.elementKind? name definition = .ok (some kind) →
      Recognises definition fun text => SchemaSet.bundled.metadata.ids.isValid text = true ∧
        SchemaSet.bundled.metadata.ids.letters? text = some kind.letters) ∧
    (∃ definition,
      Value.lookup "AnyRef" (Schema.sharedDefinitions SchemaSet.bundled.definitions) = some definition ∧
      Recognises definition fun text => SchemaSet.bundled.metadata.ids.isValid text = true) ∧
    ∀ d e path text, (path, text) ∈ e.texts →
      (SchemaSet.bundled.metadata.ids.isValid text = true ↔
        ∃ r ∈ Document.referencesIn SchemaSet.bundled.metadata d e, r.path = path ∧ r.id = text) := by
  refine ⟨fun name definition kind hmem hkind => ?_, ?_, fun d e path text hmem => ?_⟩
  · obtain ⟨e, he, rfl, rfl⟩ := exists_of_mem_definitions hmem
    obtain ⟨k, hk, hform, hletters⟩ := exists_identifier he hkind
    have hin : k.2.1 ∈ kindLetters := List.mem_map_of_mem hk
    rw [hform, hletters, identifier_value hin]
    refine (recognises_patternFor (List.mem_cons_of_mem _ hin) _ _).congr fun text => ?_
    simp only [ne_anyKind hin, false_or, and_left_comm, exists_eq_left]
    exact (and_iff_right hin).trans (hasLetters_bundled_iff hin).symm
  · refine ⟨anyRefDefinition.value, ?_, ?_⟩
    · rw [definitions_bundled]
      rfl
    · refine (recognises_patternFor List.mem_cons_self _ _).congr fun text => ?_
      simp only [true_or, true_and]
      exact isValid_bundled_iff.symm
  · constructor
    · intro hvalid
      exact ⟨_, List.mem_map_of_mem (List.mem_filter.mpr ⟨hmem, hvalid⟩), rfl, rfl⟩
    · rintro ⟨r, hr, rfl, rfl⟩
      obtain ⟨t, ht, rfl⟩ := List.mem_map.mp hr
      exact (List.mem_filter.mp ht).2

/-- An identifier with a line feed behind it, as block scalars give it, is one for both. -/
theorem definitions_recognise_actor_with_line_feed :
    ∃ definition kind,
      (.str "ActorRef", definition) ∈ Schema.sharedDefinitions SchemaSet.bundled.definitions ∧
      Metadata.elementKind? (.str "ActorRef") definition = .ok (some kind) ∧
      (∀ r depth scope place,
        check r (depth + 1) scope ⟨definition, place⟩ (.str "AC00001\n") = .ok []) ∧
      ∃ e : Entry, ("/owner", "AC00001\n") ∈ e.texts ∧
        ∃ r ∈ Document.referencesIn SchemaSet.bundled.metadata default e, r.id = "AC00001\n" := by
  have hdefinition : (.str "ActorRef", (identifier "AC" "actor" "actors" "Actor ID").value) ∈
      Schema.sharedDefinitions SchemaSet.bundled.definitions := by
    rw [definitions_bundled]
    exact List.mem_of_getElem? (i := 4) rfl
  have hkind : Metadata.elementKind? (.str "ActorRef")
      (identifier "AC" "actor" "actors" "Actor ID").value =
        .ok (some ⟨"AC", "actor", .str "actors", "Actor ID"⟩) := rfl
  have hid : SchemaSet.bundled.metadata.ids.isValid "AC00001\n" = true ∧
      SchemaSet.bundled.metadata.ids.letters? "AC00001\n" = some "AC" :=
    (hasLetters_bundled_iff (by decide)).mpr ⟨"00001".toList, by decide, by decide, .inr (by decide)⟩
  have hentry : ("/owner", "AC00001\n") ∈
      (Entry.mk "owner" "/owner" (.scalar (.str "AC00001\n"))).texts := List.mem_cons_self
  refine ⟨_, _, hdefinition, hkind, fun r depth scope place => ?_, _, hentry, ?_⟩
  · exact ((definitions_recognise_identifiers.1 _ _ _ hdefinition hkind).check _ _ _ _ _).mpr hid
  · obtain ⟨r, hr, -, hr'⟩ := (definitions_recognise_identifiers.2.2 default _ _ _ hentry).mp hid.1
    exact ⟨r, hr, hr'⟩

end BusinessModel.Schema.Bundled
