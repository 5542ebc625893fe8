import BusinessModel.Proofs.Schema.Arrangement
import BusinessModel.Proofs.Schema.Finding
import Mathlib.Data.List.Perm.Subperm
import Mathlib.Data.List.Sort
import Mathlib.Data.String.Basic

/-!
The properties that refer to elements are those that the document schemas lead to under a name, through
references and the keywords that hold schemas, where a schema says what identifiers begin with. The walk
finds them all and no others, and comes to an end even if the schemas refer to each other in circles.
-/

namespace BusinessModel

namespace Schema

namespace Notes

variable {notes notes' : Notes}

theorem nodup_distinct (xs : List String) : (distinct xs).Nodup := by
  have hfold {seen : List String} (hseen : seen.Nodup) : (xs.foldl (fun seen x =>
      if seen.contains x then seen else x :: seen) seen).Nodup := by
    induction xs generalizing seen with
    | nil => exact hseen
    | cons x rest ih =>
      rw [List.foldl_cons]
      split
      · exact ih hseen
      · next hcontains =>
        exact ih (List.nodup_cons.mpr ⟨fun hx => hcontains (List.contains_iff_mem.mpr hx), hseen⟩)
  exact List.nodup_reverse.mpr (hfold List.nodup_nil)

/-- The members of lists, each once and sorted, are the same if the lists have the same members. -/
theorem mergeSort_distinct_congr {xs ys : List String} (h : ∀ x, x ∈ xs ↔ x ∈ ys) :
    ((distinct xs).mergeSort fun a b => a ≤ b) = (distinct ys).mergeSort fun a b => a ≤ b := by
  have hperm : (distinct xs).Perm (distinct ys) := by
    rw [List.perm_ext_iff_of_nodup (nodup_distinct xs) (nodup_distinct ys)]
    simpa only [mem_distinct] using h
  exact ((List.mergeSort_perm _ _).trans (hperm.trans (List.mergeSort_perm _ _).symm)).eq_of_pairwise'
    (List.pairwise_mergeSort' (· ≤ ·) _) (List.pairwise_mergeSort' (· ≤ ·) _)

theorem referenceFields_eq (notes : Notes) : notes.referenceFields =
    ((distinct (notes.fields.map (·.property))).mergeSort fun a b => a ≤ b).map fun name =>
      (name, if (notes.lettersFor name).contains Walk.anyKind then []
        else (distinct (notes.lettersFor name)).mergeSort fun a b => a ≤ b) :=
  rfl

theorem nodup_referenceFields : (notes.referenceFields.map (·.1)).Nodup := by
  have hnames : notes.referenceFields.map (·.1) =
      (distinct (notes.fields.map (·.property))).mergeSort fun a b => a ≤ b := by
    rw [referenceFields_eq, List.map_map]
    exact List.map_id _
  rw [hnames]
  exact (List.mergeSort_perm _ _).nodup_iff.mpr (nodup_distinct _)

/-- The properties that refer to elements depend on what is noted only, not on its order. -/
theorem referenceFields_congr (h : ∀ name letters,
      (⟨name, letters⟩ : FieldNote) ∈ notes.fields ↔ ⟨name, letters⟩ ∈ notes'.fields) :
    notes.referenceFields = notes'.referenceFields := by
  have hnames (name : String) :
      name ∈ notes.fields.map (·.property) ↔ name ∈ notes'.fields.map (·.property) := by
    rw [mem_properties_iff, mem_properties_iff]
    exact exists_congr (h name)
  have hletters (name letters : String) :
      letters ∈ notes.lettersFor name ↔ letters ∈ notes'.lettersFor name := by
    rw [mem_lettersFor, mem_lettersFor]
    exact h name letters
  have hany (name : String) : (notes.lettersFor name).contains Walk.anyKind =
      (notes'.lettersFor name).contains Walk.anyKind := by
    rw [Bool.eq_iff_iff, List.contains_iff_mem, List.contains_iff_mem, hletters]
  rw [referenceFields_eq, referenceFields_eq, mergeSort_distinct_congr hnames]
  refine List.map_congr_left fun name _ => ?_
  rw [hany, mergeSort_distinct_congr (hletters name)]

end Notes

namespace Walk

variable {v w : Value} {letters : String}

/-- A schema of identifiers of all kinds. -/
def AcceptsAny (v : Value) : Prop :=
  ∃ about x, v.get? "x-ubml" = some (.map about) ∧ Value.lookup "anyReference" about = some x ∧
    x.isSet = true

/-- A schema of identifiers that begin with the letters. -/
def HasLetters (v : Value) (letters : String) : Prop :=
  ∃ about x, v.get? "x-ubml" = some (.map about) ∧ Value.lookup "prefix" about = some x ∧
    x.text = letters

theorem lettersOf_of_acceptsAny (h : AcceptsAny v) : lettersOf v = some anyKind := by
  obtain ⟨about, x, habout, hx, hset⟩ := h
  simp [lettersOf, habout, Block.entries, hx, hset]

theorem lettersOf_eq_some_iff (h : ¬ AcceptsAny v) :
    lettersOf v = some letters ↔ HasLetters v letters := by
  unfold lettersOf Block.entries
  split
  · next about hentries =>
    split at hentries
    · next hnone =>
      cases hentries
      refine iff_of_false (by simp [Value.lookup]) ?_
      rintro ⟨about, _, habout, _⟩
      cases hnone.symm.trans habout
    · next entries habout =>
      cases hentries
      have hany : ((Value.lookup "anyReference" about).map Value.isSet).getD false = false := by
        cases hx : Value.lookup "anyReference" about with
        | none => rfl
        | some x => exact Bool.eq_false_iff.mpr fun hset => h ⟨about, x, habout, hx, hset⟩
      rw [hany, if_neg Bool.false_ne_true, Option.map_eq_some_iff]
      constructor
      · rintro ⟨x, hx, htext⟩
        exact ⟨about, x, habout, hx, htext⟩
      · rintro ⟨about', x, habout', hx, htext⟩
        cases habout.symm.trans habout'
        exact ⟨x, hx, htext⟩
    · next x hmap hx =>
      split at hentries
      · cases hentries
      · cases hentries
        refine iff_of_false (by simp [Value.lookup]) ?_
        rintro ⟨about, _, habout, _⟩
        exact hmap about (Option.some.inj (hx.symm.trans habout))
  · next e hentries =>
    refine iff_of_false (by simp) ?_
    rintro ⟨about, _, habout, _⟩
    rw [habout] at hentries
    cases hentries

/-- A schema has letters if it is of identifiers of all kinds or says what they begin with. -/
theorem exists_lettersOf_iff :
    (∃ letters, lettersOf v = some letters) ↔ AcceptsAny v ∨ ∃ letters, HasLetters v letters := by
  by_cases h : AcceptsAny v
  · exact iff_of_true ⟨_, lettersOf_of_acceptsAny h⟩ (.inl h)
  · simp only [lettersOf_eq_some_iff h, h, false_or]

theorem AcceptsAny.reorders (h : AcceptsAny v) (hvw : v.Reorders w) : AcceptsAny w := by
  obtain ⟨about, x, habout, hx, hset⟩ := h
  obtain ⟨block, hblock, hblocks⟩ := hvw.exists_get? habout
  have hmap := hblocks.isMap_eq
  cases block with
  | map about' =>
    obtain ⟨y, hy, hxy⟩ := hblocks.exists_get? hx
    exact ⟨about', y, hblock, hy, hxy.isSet_eq.trans hset⟩
  | scalar s => cases hmap
  | list items => cases hmap

theorem HasLetters.reorders (h : HasLetters v letters) (hvw : v.Reorders w)
    (hscalar : ∀ {about x}, v.get? "x-ubml" = some (.map about) →
      Value.lookup "prefix" about = some x → ∃ s, x = .scalar s) : HasLetters w letters := by
  obtain ⟨about, x, habout, hx, htext⟩ := h
  obtain ⟨s, rfl⟩ := hscalar habout hx
  obtain ⟨block, hblock, hblocks⟩ := hvw.exists_get? habout
  have hmap := hblocks.isMap_eq
  cases block with
  | map about' =>
    obtain ⟨y, hy, hxy⟩ := hblocks.exists_get? hx
    rw [hxy.eq_scalar] at hy
    exact ⟨about', _, hblock, hy, htext⟩
  | scalar s => cases hmap
  | list items => cases hmap

end Walk

end Schema

namespace SchemaSet

open Schema Walk

/-- The schemas of a set are registered by the addresses that they give themselves. -/
theorem eq_map_of_addressed {source : String} {schemas entries : List (String × Value)}
    (h : addressed source schemas = .ok entries) :
    entries = schemas.map fun s => (Draft.ownAddress s.2, s.2) := by
  have hmap := map_of_foldlM_eq_ok (g := id) (k := fun s => (Draft.ownAddress s.2, s.2))
    (fun seen e next hnext => ?_) h
  · simpa using hmap
  obtain ⟨label, v⟩ := e
  obtain ⟨address?, haddress, hnext⟩ := bind_eq_ok_iff.mp hnext
  cases address? with
  | none => cases hnext
  | some address =>
    dsimp only at hnext
    split at hnext
    · cases hnext
    · split at hnext
      · cases hnext
      · cases hnext
      · cases hnext
        rw [Draft.ownAddress, get?_id_of_addressOf haddress]
        simp [Value.text, Scalar.text]

namespace Draft

section Definitions

variable (d : Draft)

/-- A name leads to a schema of identifiers of all kinds. -/
def AcceptsAny (name : String) : Prop := ∃ s, d.Leads s (some name) ∧ Walk.AcceptsAny s.value

/-- A name leads to a schema of identifiers that begin with the letters. -/
def HasLetters (name letters : String) : Prop :=
  ∃ s, d.Leads s (some name) ∧ Walk.HasLetters s.value letters

/-- The properties are those whose names lead to schemas of identifiers, the property of an identifier
itself apart. Each has the letters that identifiers begin with there, and none if they may be of all
kinds. -/
structure IsClosure (fields : List (String × List String)) : Prop where
  nodup : (fields.map (·.1)).Nodup
  isSome_iff : ∀ name, (fields.lookup name).isSome = true ↔
    name ≠ "id" ∧ (d.AcceptsAny name ∨ ∃ letters, d.HasLetters name letters)
  any : ∀ {name accepted}, fields.lookup name = some accepted → d.AcceptsAny name → accepted = []
  letters : ∀ {name accepted}, fields.lookup name = some accepted → ¬ d.AcceptsAny name →
    accepted.Nodup ∧ ∀ l, l ∈ accepted ↔ d.HasLetters name l

/-- The walk from the document schemas comes to an end and finds the properties, and a set that is made
of the schemas has them. -/
structure Yields (fields : List (String × List String)) : Prop where
  finishes : ∃ notes, Finishes d.registry (d.addresses.map start) {} notes ∧
    ofAddresses d.registry d.addresses = .ok notes ∧ notes.referenceFields = fields
  built : ∀ {source s}, ofSchemas source d.index d.definitions d.documents = .ok s →
    s.metadata.referenceFields = fields

/-- The walk comes to an end and finds the closure, and the same in any order of the documents and of
the entries in the schemas. -/
def YieldsClosure : Prop :=
  ∃ fields, d.IsClosure fields ∧ d.Yields fields ∧ ∀ d' : Draft, d.Reorders d' → d'.Yields fields

end Definitions

variable {d d' : Draft} {notes : Notes}

/-- What the walk notes of a name is the closure. -/
theorem IsGrounded.isClosure (hd : d.IsGrounded)
    (hletters : ∀ {s name}, d.Leads s name → ¬ Walk.HasLetters s.value anyKind)
    (hnotes : ofAddresses d.registry d.addresses = .ok notes) : d.IsClosure notes.referenceFields := by
  have hany {name : String} (hname : name ≠ "id") :
      ⟨name, anyKind⟩ ∈ notes.fields ↔ d.AcceptsAny name := by
    rw [hd.mem_fields_iff hnotes]
    constructor
    · rintro ⟨-, s, hs, hstar⟩
      by_cases haccepts : Walk.AcceptsAny s.value
      · exact ⟨s, hs, haccepts⟩
      · exact absurd ((lettersOf_eq_some_iff haccepts).mp hstar) (hletters hs)
    · rintro ⟨s, hs, haccepts⟩
      exact ⟨hname, s, hs, lettersOf_of_acceptsAny haccepts⟩
  have hsome {name : String} {accepted : List String}
      (h : notes.referenceFields.lookup name = some accepted) : name ≠ "id" ∧
        accepted = if anyKind ∈ notes.lettersFor name then []
          else (Notes.distinct (notes.lettersFor name)).mergeSort fun a b => a ≤ b := by
    have hlisted := h
    rw [Notes.lookup_referenceFields] at hlisted
    split at hlisted
    · next hmem =>
      obtain ⟨letters, hmem⟩ := Notes.mem_properties_iff.mp hmem
      refine ⟨((hd.mem_fields_iff hnotes).mp hmem).1, ?_⟩
      simpa using (Option.some.inj hlisted).symm
    · cases hlisted
  refine ⟨Notes.nodup_referenceFields, fun name => ?_, fun h haccepts => ?_, fun h hnot => ?_⟩
  · rw [Notes.isSome_lookup_referenceFields]
    simp only [hd.mem_fields_iff hnotes, exists_and_left]
    refine and_congr_right fun _ => ?_
    rw [exists_comm]
    simp only [exists_and_left, exists_lettersOf_iff, AcceptsAny, HasLetters]
    rw [exists_comm, ← exists_or]
    simp only [and_or_left, exists_and_left]
  · obtain ⟨hname, rfl⟩ := hsome h
    rw [if_pos (Notes.mem_lettersFor.mpr ((hany hname).mpr haccepts))]
  · obtain ⟨hname, rfl⟩ := hsome h
    rw [if_neg fun hmem => hnot ((hany hname).mp (Notes.mem_lettersFor.mp hmem))]
    refine ⟨(List.mergeSort_perm _ _).nodup_iff.mpr (Notes.nodup_distinct _), fun l => ?_⟩
    rw [List.mem_mergeSort, Notes.mem_distinct, Notes.mem_lettersFor, hd.mem_fields_iff hnotes]
    refine (and_iff_right hname).trans (exists_congr fun s => and_congr_right fun hs => ?_)
    exact lettersOf_eq_some_iff fun haccepts => hnot ⟨s, hs, haccepts⟩

/-- A set has the properties that the walk notes. -/
theorem referenceFields_of_ofSchemas (hnotes : ofAddresses d.registry d.addresses = .ok notes)
    {source : String} {s : SchemaSet}
    (h : ofSchemas source d.index d.definitions d.documents = .ok s) :
    s.metadata.referenceFields = notes.referenceFields := by
  obtain ⟨schemas, hschemas, h⟩ := bind_eq_ok_iff.mp h
  cases eq_map_of_addressed hschemas
  dsimp only at h
  split at h
  · cases h
  · next metadata hmetadata =>
    cases h
    obtain ⟨notes', hnotes', hfields⟩ := ends_metadata.of_ok hmetadata
    cases hnotes.symm.trans hnotes'
    exact hfields

theorem yields_of_ofAddresses
    (hnotes : ofAddresses d.registry d.addresses = .ok notes) :
    d.Yields notes.referenceFields :=
  ⟨⟨notes, finishes_ofAddresses length_addresses_le hnotes, hnotes, rfl⟩,
    referenceFields_of_ofSchemas hnotes⟩

/-! ### Other orders -/

section Reorders

variable (hs : d.IsSound) (ho : d.IsOrderly)

include hs ho

/-- Schemas opposite to each other begin identifiers with the same letters. -/
theorem IsSound.lettersOf_eq {s s' : Located} {name : Option String} (hleads : d.Leads s name)
    (hcounterpart : d.Counterpart d' s s') : lettersOf s'.value = lettersOf s.value := by
  have hreorders := hcounterpart.value
  by_cases haccepts : Walk.AcceptsAny s.value
  · rw [lettersOf_of_acceptsAny haccepts, lettersOf_of_acceptsAny (haccepts.reorders hreorders)]
  · have haccepts' : ¬ Walk.AcceptsAny s'.value :=
      fun haccepts' => haccepts (haccepts'.reorders hreorders.symm)
    refine Option.ext fun letters => ?_
    rw [lettersOf_eq_some_iff haccepts, lettersOf_eq_some_iff haccepts']
    refine ⟨fun hletters => ?_, fun hletters => hletters.reorders hreorders (ho.letters hleads)⟩
    refine hletters.reorders hreorders.symm fun {about' x} habout' hx => ?_
    obtain ⟨block, habout, hblocks⟩ := hreorders.symm.exists_get? habout'
    obtain ⟨about, rfl, _⟩ := hs.about hleads habout
    obtain ⟨y, hy, hxy⟩ := hblocks.exists_get? hx
    obtain ⟨scalar, rfl⟩ := ho.letters hleads habout hy
    exact ⟨scalar, hxy.symm.eq_scalar⟩

/-- What the walk notes does not depend on the order. -/
theorem IsSound.mem_fields_iff (h : d.Reorders d') {notes' : Notes}
    (hnotes : ofAddresses d.registry d.addresses = .ok notes)
    (hnotes' : ofAddresses d'.registry d'.addresses = .ok notes') {name letters : String} :
    ⟨name, letters⟩ ∈ notes'.fields ↔ ⟨name, letters⟩ ∈ notes.fields := by
  rw [(hs.isGrounded h ho).mem_fields_iff hnotes', (hs.isGrounded hs.reorders ho).mem_fields_iff hnotes]
  refine and_congr_right fun _ => ⟨?_, ?_⟩
  · rintro ⟨s', hleads', hletters⟩
    obtain ⟨s, hleads, hcounterpart⟩ := hs.exists_leads_back h ho hleads'
    exact ⟨s, hleads, (hs.lettersOf_eq ho hleads hcounterpart).symm.trans hletters⟩
  · rintro ⟨s, hleads, hletters⟩
    obtain ⟨s', hleads', hcounterpart⟩ := hs.exists_leads h ho hleads
    exact ⟨s', hleads', (hs.lettersOf_eq ho hleads hcounterpart).trans hletters⟩

end Reorders

/-- The documents with an index and shared definitions that say nothing. -/
def ofDocuments (documents : List (String × Value)) : Draft :=
  ⟨.object [("$id", "urn:root")], .object [("$id", "urn:defs")], documents⟩

/-- A document schema that refers to itself. -/
def circular : Draft :=
  ofDocuments [("doc", .object [("$id", "urn:doc"), ("properties", .object
    [("owner", .object [("$ref", "#"), ("x-ubml", .object [("prefix", "AC")])])])])]

/-- The properties that the walk finds, if it comes to an end. -/
def fields? (d : Draft) : Option (List (String × List String)) :=
  (ofAddresses d.registry d.addresses).toOption.map Notes.referenceFields

theorem Yields.fields?_eq {fields : List (String × List String)} (h : d.Yields fields) :
    d.fields? = some fields := by
  obtain ⟨notes, _, hnotes, rfl⟩ := h.finishes
  rw [fields?, hnotes]
  rfl

theorem not_yieldsClosure_of_eq_none (h : d.fields? = none) : ¬ d.YieldsClosure := by
  rintro ⟨fields, _, hyields, _⟩
  cases h.symm.trans hyields.fields?_eq

theorem not_yieldsClosure_of_ne (h : d.Reorders d') (hne : d.fields? ≠ d'.fields?) :
    ¬ d.YieldsClosure := by
  rintro ⟨fields, _, hyields, horders⟩
  exact hne (hyields.fields?_eq.trans (horders d' h).fields?_eq.symm)

theorem reorders_ofDocuments {documents documents' : List (String × Value)}
    (h : Value.Rearranges documents documents') :
    (ofDocuments documents).Reorders (ofDocuments documents') :=
  ⟨Value.RepeatsNoKey.reorders (by simp [ofDocuments]),
    Value.RepeatsNoKey.reorders (by simp [ofDocuments]), h⟩

theorem reorders_ofDocument {type : String} {v w : Value} (h : v.Reorders w) :
    (ofDocuments [(type, v)]).Reorders (ofDocuments [(type, w)]) :=
  reorders_ofDocuments ⟨[(type, v, w)], [(type, v, w)], .refl _, rfl, rfl, by simpa using h⟩

/-- A schema that gives itself a name. -/
def named (keyword letters : String) : Value :=
  .object [(keyword, "kind"), ("x-ubml", .object [("prefix", .str letters)])]

/-- A property that refers to the name. -/
def owned : Value := .object [("owner", .object [("$ref", "#kind")])]

/-- Two definitions with the same name, of which a reference leads to the last one. -/
def twiceNamed : Draft :=
  ofDocuments [("doc", .object [("$id", "urn:doc"), ("properties", owned), ("$defs", .object
    [("Actor", named "$anchor" "AC"), ("Task", named "$anchor" "TK")])])]

/-- A document schema that is the shared one. -/
def sharing : String × Value := ("plain", .object [("$id", "urn:plain"), ("$ref", "urn:shared")])

/-- A document schema that is the shared one, with another definition of the name. -/
def binding : String × Value :=
  ("bound", .object [("$id", "urn:bound"), ("$ref", "urn:shared"),
    ("$defs", .object [("kind", named "$dynamicAnchor" "TK")])])

/-- A shared schema with a name that gives way, and two documents of which the first one decides what the
name stands for. -/
def contested (first second : String × Value) : Draft :=
  ofDocuments [first, second, ("shared", .object [("$id", "urn:shared"), ("properties", owned),
    ("$defs", .object [("kind", named "$dynamicAnchor" "AC")])])]

/-- Letters that are no text, but a mapping with an order of its own. -/
def composed : Draft :=
  ofDocuments [("doc", .object [("$id", "urn:doc"), ("properties", .object [("owner", .object
    [("x-ubml", .object [("prefix", .object [("a", .int 1), ("b", .int 2)])])])])])]

/-- A reference to something that is no schema. -/
def misled : Draft :=
  ofDocuments [("doc", .object [("$id", "urn:doc"), ("$ref", "#/x-note"),
    ("x-note", .object [("properties", .list [.null])])])]

/-- An address that is read as another one. -/
def capital : Draft := ofDocuments [("doc", .object [("$id", "URN:doc#")])]

/-- References that go one step further each time they are followed. -/
def drifting : Draft :=
  ofDocuments [("doc", .object [("$id", "a/b"),
    ("properties", .object [("owner", .object [("$ref", "a/b")])]),
    ("items", .object [("$ref", "a/b")])])]

end Draft

end SchemaSet

end BusinessModel
