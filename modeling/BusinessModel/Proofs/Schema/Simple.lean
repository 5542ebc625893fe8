import BusinessModel.Proofs.Schema.Set

/-!
Schemas with a few keywords that are easily checked. Whether they pass the check against the schema of
schemas is told by looking at their parts one by one.
-/

namespace BusinessModel

namespace Schema.Metaschema

/-- Whether a text is found by a pattern. -/
def isFound (pattern : String) (v : Value) : Bool :=
  v.str?.any fun text => (Pattern.parse? pattern).any (·.search text)

/-- Whether a value is a list of different texts. -/
def isTexts (v : Value) : Bool :=
  ValueType.array.holds v && v.items.all (·.str?.isSome) &&
    decide (v.items.filterMap Value.str?).Nodup

/-- What is asked of a few keywords, given what is asked of schemas inside. -/
def simpleTests (inner : Value → Bool) : List (List String × (Value → Bool)) :=
  [(["$ref", "$schema", "title", "description"], (·.str?.isSome)),
   (["$id"], isFound "^[^#]*#?$"),
   (["$anchor", "$dynamicAnchor"], isFound "^[A-Za-z_][-A-Za-z0-9._]*$"),
   (["type"], (·.str?.any fun name => (ValueType.ofText? name).isSome)),
   (["pattern"], (·.str?.any fun text => (Pattern.parse? text).isSome)),
   (["minimum", "maximum"], ValueType.number.holds),
   (["enum", "examples"], ValueType.array.holds),
   (["required"], isTexts),
   (["items", "additionalProperties", "propertyNames"], inner),
   (["oneOf"], fun v => !v.items.isEmpty && v.items.all inner),
   (["properties", "$defs"], fun v =>
    v.isMap && v.entries.all fun e => e.1.str?.isSome && inner e.2)]

/-- Whether a keyword is one of these and has what it asks for, or is none of the schema of schemas. -/
def takesSimply (inner : Value → Bool) (keyword : String) (v : Value) : Bool :=
  ((simpleTests inner).find? (·.1.contains keyword)).elim
    (decide (keyword ∉ schemas.flatMap fun s => (describedBy s.2).map (·.1))) (·.2 v)

/-- Whether a value is a schema with such keywords, to some depth. -/
def isSimple : Nat → Value → Bool
  | 0, _ => false
  | depth + 1, v => ValueType.boolean.holds v || v.isMap && v.entries.all fun e =>
    e.1.str?.any fun keyword => takesSimply (isSimple depth) keyword e.2

/-- A mapping whose keys are texts is written with the texts. -/
theorem exists_object {v : Value} (hmap : v.isMap = true)
    (hkeys : ∀ e ∈ v.entries, e.1.str?.isSome = true) :
    ∃ entries, v = .object entries ∧ ∀ e ∈ entries, (.str e.1, e.2) ∈ v.entries := by
  obtain ⟨es, rfl⟩ : ∃ es, v = .map es := by
    cases v with
    | map es => exact ⟨es, rfl⟩
    | scalar s => cases hmap
    | list items => cases hmap
  refine ⟨es.map fun e => (e.1.str?.getD "", e.2), ?_, fun e he => ?_⟩
  · rw [Value.object, List.map_map, Value.map.injEq]
    refine (List.map_id es).symm.trans (List.map_congr_left fun e he => ?_)
    obtain ⟨text, htext⟩ := Option.isSome_iff_exists.mp (hkeys e he)
    have hkey := Value.eq_of_str? htext
    exact Prod.ext (by simp [hkey, Value.str?]) rfl
  · obtain ⟨x, hx, rfl⟩ := List.mem_map.mp he
    obtain ⟨text, htext⟩ := Option.isSome_iff_exists.mp (hkeys x hx)
    rw [htext, Option.getD_some, ← Value.eq_of_str? htext]
    exact hx

/-- A keyword for a name takes a text of the form that names have. -/
theorem accepts_anchor {least : Nat} {keyword : String} {v : Value}
    (hkeyword : keyword ∈ ["$anchor", "$dynamicAnchor"])
    (h : isFound "^[A-Za-z_][-A-Za-z0-9._]*$" v = true) : Accepts (least + 2) keyword v := by
  obtain ⟨text, htext, hsearch⟩ := (Option.any_eq_true _ _).mp h
  obtain ⟨p, hp, hsearch⟩ := (Option.any_eq_true _ _).mp hsearch
  rw [Value.eq_of_str? htext]
  have htakes : Takes (least + 2) (vocabularyAddress "core") (reference "#/$defs/anchorString")
      (.str text) :=
    takes_own (i := 1) (d := "anchorString") rfl rfl ⟨by decide, by decide⟩ rfl
      (takes_object (by simp [List.lookup_cons]) fun e he => by
        rcases List.mem_cons.mp he with rfl | he
        · exact passes_type (t := .string) rfl
        · rw [List.mem_singleton.mp he]
          exact passes_pattern rfl hp hsearch)
  rcases List.mem_cons.mp hkeyword with rfl | hkeyword
  · exact accepts_of_vocabulary (i := 1) (j := 3) rfl rfl htakes
  · rw [List.mem_singleton.mp hkeyword]
    exact accepts_of_vocabulary (i := 1) (j := 5) rfl rfl htakes

theorem exists_texts_of_isTexts {v : Value} (h : isTexts v = true) :
    ∃ names, v = .texts names ∧ names.Nodup := by
  rw [isTexts, Bool.and_eq_true, Bool.and_eq_true, List.all_eq_true, decide_eq_true_eq] at h
  obtain ⟨⟨harray, hall⟩, hnodup⟩ := h
  obtain ⟨items, rfl⟩ := ValueType.exists_list_of_holds harray
  refine ⟨_, ?_, hnodup⟩
  rw [Value.texts, Value.list.injEq, List.map_filterMap]
  refine List.filterMap_some.symm.trans (List.filterMap_congr fun x hx => ?_)
  obtain ⟨text, htext⟩ := Option.isSome_iff_exists.mp (hall x hx)
  rw [htext, Option.map_some, ← Value.eq_of_str? htext]

theorem accepts_oneOf_of_all {least : Nat} {inner : Value → Bool}
    (hinner : ∀ v, inner v = true → Meets least dialect schema v) {v : Value}
    (h : (!v.items.isEmpty && v.items.all inner) = true) : Accepts (least + 3) "oneOf" v := by
  rw [Bool.and_eq_true, List.all_eq_true] at h
  obtain ⟨hsome, hall⟩ := h
  cases v with
  | list items =>
    cases items with
    | nil => cases hsome
    | cons way ways => exact accepts_oneOf fun x hx => hinner x (hall x hx)
  | _ => cases hsome

theorem accepts_table_of_all {least : Nat} {inner : Value → Bool}
    (hinner : ∀ v, inner v = true → Meets least dialect schema v) {keyword : String} {v : Value}
    (hkeyword : keyword ∈ ["properties", "$defs"])
    (h : (v.isMap && v.entries.all fun e => e.1.str?.isSome && inner e.2) = true) :
    Accepts (least + 2) keyword v := by
  simp only [Bool.and_eq_true, List.all_eq_true] at h
  obtain ⟨entries, rfl, hmem⟩ := exists_object h.1 fun e he => (h.2 e he).1
  exact accepts_table hkeyword fun e he => hinner e.2 (h.2 _ (hmem e he)).2

/-- What is taken simply is accepted, if what is inside is a schema. -/
theorem accepts_of_takesSimply {least : Nat} {inner : Value → Bool}
    (hinner : ∀ v, inner v = true → IsSchema least v) {keyword : String} {v : Value}
    (h : takesSimply inner keyword v = true) : Accepts (least + 6) keyword v := by
  have hmeets (v : Value) (hv : inner v = true) := meets_schema (hinner v hv)
  rw [takesSimply] at h
  cases hfound : (simpleTests inner).find? (·.1.contains keyword) with
  | none =>
    rw [hfound] at h
    exact accepts_unknown (of_decide_eq_true h)
  | some test =>
    rw [hfound, Option.elim_some] at h
    have htest := List.mem_of_find?_eq_some hfound
    have hkeyword : keyword ∈ test.1 := by simpa using List.find?_some hfound
    -- each of the tests, in their order
    simp only [simpleTests, List.mem_cons, List.not_mem_nil, or_false] at htest
    rcases htest with rfl | rfl | rfl | rfl | rfl | rfl | rfl | rfl | rfl | rfl | rfl
    · obtain ⟨text, htext⟩ := Option.isSome_iff_exists.mp h
      rw [Value.eq_of_str? htext]
      simp only [List.mem_cons, List.not_mem_nil, or_false] at hkeyword
      rcases hkeyword with rfl | rfl | rfl | rfl
      · exact accepts_reference
      · exact accepts_dialect
      · exact accepts_title
      · exact accepts_description
    · obtain ⟨text, htext, hsearch⟩ := (Option.any_eq_true _ _).mp h
      obtain ⟨p, hp, hsearch⟩ := (Option.any_eq_true _ _).mp hsearch
      rw [List.mem_singleton.mp hkeyword, Value.eq_of_str? htext]
      exact accepts_id hp hsearch
    · exact accepts_anchor hkeyword h
    · obtain ⟨name, hname, htype⟩ := (Option.any_eq_true _ _).mp h
      obtain ⟨t, ht⟩ := Option.isSome_iff_exists.mp htype
      have htext : t.text = name := by
        rw [ValueType.ofText?] at ht
        simpa using List.find?_some ht
      rw [List.mem_singleton.mp hkeyword, Value.eq_of_str? hname, ← htext]
      exact accepts_type
    · obtain ⟨text, htext, hparse⟩ := (Option.any_eq_true _ _).mp h
      rw [List.mem_singleton.mp hkeyword, Value.eq_of_str? htext]
      exact accepts_pattern hparse
    · exact accepts_number hkeyword h
    · obtain ⟨items, rfl⟩ := ValueType.exists_list_of_holds h
      exact accepts_list hkeyword
    · obtain ⟨names, rfl, hnodup⟩ := exists_texts_of_isTexts h
      rw [List.mem_singleton.mp hkeyword]
      exact accepts_required hnodup
    · have haccepts : Accepts (least + 4) keyword v := accepts_inner (hmeets v h) hkeyword
      exact haccepts.mono (by omega)
    · exact List.mem_singleton.mp hkeyword ▸ accepts_oneOf_of_all hmeets h
    · have haccepts : Accepts (least + 5) keyword v := accepts_table_of_all hmeets hkeyword h
      exact haccepts.mono (by omega)

theorem isSchema_of_isSimple {depth : Nat} {v : Value} (h : isSimple depth v = true) :
    IsSchema (6 * depth) v := by
  induction depth generalizing v with
  | zero => cases h
  | succ depth ih =>
    rw [isSimple, Bool.or_eq_true] at h
    rcases h with hbool | h
    · exact .inl (ValueType.exists_bool_of_holds hbool)
    rw [Bool.and_eq_true, List.all_eq_true] at h
    obtain ⟨hmap, hall⟩ := h
    obtain ⟨entries, rfl, hmem⟩ := exists_object hmap fun e he => by
      obtain ⟨keyword, hkeyword, _⟩ := (Option.any_eq_true _ _).mp (hall e he)
      rw [hkeyword]
      rfl
    refine .inr ⟨entries, rfl, fun e he => ?_⟩
    obtain ⟨keyword, hkeyword, htakes⟩ := (Option.any_eq_true _ _).mp (hall _ (hmem e he))
    cases hkeyword
    exact accepts_of_takesSimply (fun v => ih) htakes

end Schema.Metaschema

open Schema in
/-- A simple schema that gives itself an address can be part of a set. -/
theorem SchemaSet.hasAddress_of_isSimple {depth : Nat} {v : Value} {address : String}
    (hsimple : Metaschema.isSimple depth v = true)
    (haddress : (v.get? "$id").bind Value.str? = some address) (hne : address.isEmpty = false)
    (hdepth : 6 * depth + 3 ≤ checkDepth) : HasAddress v address := by
  refine ⟨?_, Metaschema.complaint?_eq_none
    (Metaschema.meets_schema (Metaschema.isSchema_of_isSimple hsimple)) hdepth⟩
  unfold Value.get? at haddress
  split at haddress
  · rw [addressOf, haddress, Option.filter_some, hne]
    rfl
  · cases haddress

open Schema in
/-- Simple schemas that give themselves different addresses make a set, as long as there is metadata in
them. -/
theorem SchemaSet.exists_ofSchemas_of_isSimple {index definitions : Value}
    {documents schemas : List (String × Value)} {depth : Nat}
    (hschemas : (labelled index definitions documents).map (·.2) = schemas.map (·.2))
    (hsimple : schemas.all (fun e => Metaschema.isSimple depth e.2 &&
      (e.2.get? "$id").bind Value.str? == some e.1 && !e.1.isEmpty) = true)
    (hdepth : 6 * depth + 3 ≤ checkDepth) (hdistinct : schemas.Pairwise fun a b => a.1 ≠ b.1)
    (hmetadata : (Metadata.ofSchemas index definitions documents
      (.ofSchemas schemas)).toOption.isSome = true) :
    ∃ metadata, ∀ source, ofSchemas source index definitions documents = .ok
      { source, index, definitions, documents, metadata
        registry := .ofSchemas (schemas ++ Metaschema.schemas) } := by
  obtain ⟨metadata, hmetadata⟩ := Option.isSome_iff_exists.mp hmetadata
  have haddress : ∀ e ∈ schemas, HasAddress e.2 e.1 := by
    intro e he
    have htest := List.all_eq_true.mp hsimple e he
    simp only [Bool.and_eq_true, beq_iff_eq, Bool.not_eq_true'] at htest
    exact hasAddress_of_isSimple htest.1.1 htest.1.2 htest.2 hdepth
  have hsame : List.Forall₂ (fun s e : String × Value => s.2 = e.2)
      (labelled index definitions documents) schemas :=
    List.forall₂_map_left_iff.mp (List.forall₂_map_right_iff.mp (List.forall₂_eq_eq_eq ▸ hschemas))
  have hall := ((List.forall₂_and_left schemas _).mpr ⟨haddress, hsame.flip⟩).flip
  refine ⟨metadata, fun source => ofSchemas_eq_ok ?_ (toOption_eq_some_iff.mp hmetadata)⟩
  exact addressed_eq_ok source (hall.imp fun _ _ h => h.symm) hdistinct

end BusinessModel
