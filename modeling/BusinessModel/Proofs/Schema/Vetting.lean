import BusinessModel.Proofs.Schema.Metaschema

/-!
What has passed the check against the schema of schemas. Where such a value has a keyword that holds
schemas, it holds them in the form that the keyword asks for, and they have passed the check too: the
check of a schema comes back to the schema of schemas at each schema inside.
-/

namespace BusinessModel

/-- A mapping written with texts as keys has its entries in the order in which they are written. -/
theorem Value.getElem?_object {es : List (String × Value)} {i : Nat} {key : String} {v : Value}
    (h : es[i]? = some (key, v)) : (Value.object es).entries[i]? = some (.str key, v) := by
  change (es.map fun e => (Value.str e.1, e.2))[i]? = _
  rw [List.getElem?_map, h]
  rfl

theorem Schema.same_str_of_ne {k : Scalar} (key : String) (h : ∀ name, k ≠ .str name) :
    (Scalar.str key).same k = false := by
  cases k with
  | str name => exact absurd rfl (h name)
  | _ => simp [Scalar.same, Scalar.compareNumbers?, Scalar.asNumber]

/-- A text as a key is looked up among the texts. -/
theorem Value.lookupScalar_str (key : String) (entries : List (Value × Value)) :
    lookupScalar (.str key) entries = lookup key entries := by
  fun_induction lookup key entries with
  | case1 => rfl
  | case2 k v rest hk =>
    rw [lookupScalar, if_pos]
    rw [Scalar.same, beq_iff_eq]
    exact (beq_iff_eq.mp hk).symm
  | case3 k v rest hk ih =>
    rw [lookupScalar, if_neg, ih]
    rw [Scalar.same, beq_iff_eq]
    exact fun heq => hk (beq_iff_eq.mpr heq.symm)
  | case4 e rest hother ih =>
    obtain ⟨k, v⟩ := e
    cases k with
    | scalar k =>
      rw [lookupScalar, Schema.same_str_of_ne key fun name hname => hother name v (by rw [hname]),
        if_neg Bool.false_ne_true, ih]
    | list items => rw [lookupScalar, ih]; simp
    | map entries => rw [lookupScalar, ih]; simp

namespace Schema.Metaschema

/-- The value has passed the check against a part, on a way through the schema of schemas. -/
def Passed (address : String) (part x : Value) : Prop :=
  ∃ (scope : Scope) (place : Place) (depth : Nat), IsInside scope address ∧
    check registry depth scope ⟨part, place⟩ x = .ok []

/-- The value has passed the check against the schema of schemas. -/
def IsVetted (x : Value) : Prop := Passed dialect schema x

variable {address : String} {part x : Value}

/-! ### Keywords of a part -/

/-- Nothing is found by a keyword of a part that has been passed. -/
theorem Passed.exists_site {keywords : List (String × Value)} (h : Passed address (.object keywords) x)
    {i : Nat} {keyword : String} {value : Value} (hi : keywords[i]? = some (keyword, value)) :
    ∃ scope place depth argument, IsInside scope address ∧ argument.value = value ∧
      keywordViolations ⟨registry, scope, ⟨.object keywords, place⟩, x, check registry depth⟩ depth
        keyword argument = .ok [] := by
  obtain ⟨scope, place, depth, hscope, hcheck⟩ := h
  cases depth with
  | zero => cases hcheck
  | succ depth =>
    refine ⟨scope, place, depth, Located.part ⟨.object keywords, place⟩ i value, hscope, rfl, ?_⟩
    refine (check_eq_nil_iff rfl).mp hcheck keyword _ (Located.mem_entries_iff.mpr
      ⟨i, _, Value.getElem?_object hi, rfl⟩)

/-- What is admitted by a part has passed it. -/
theorem passed_of_admits {scope inner : Scope} {depth : Nat} {s target : Located} {y : Value}
    (hscope : IsInside inner address) (htarget : target.value = part) (hmap : part.isMap = true)
    (h : (⟨registry, scope, s, y, check registry depth⟩ : Site).Admits inner target x) :
    Passed address part x := by
  rcases h with htrue | ⟨_, hcheck⟩
  · rw [← htarget, htrue] at hmap
    cases hmap
  · obtain ⟨value, place⟩ := target
    cases htarget
    exact ⟨inner, place, depth, hscope, hcheck⟩

/-- What enters a part without an address of its own has passed it. -/
theorem passed_of_enters {keywords : List (String × Value)} {scope : Scope} {depth : Nat}
    {s argument : Located} {y : Value} (hscope : IsInside scope address)
    (hargument : argument.value = .object keywords) (hid : keywords.lookup "$id" = none)
    (h : (⟨registry, scope, s, y, check registry depth⟩ : Site).Enters argument x) :
    Passed address (.object keywords) x := by
  obtain ⟨inner, hinner, hadmits⟩ := h
  have henter : scope.enter argument.value = .ok scope := by
    simp [Scope.enter, hargument, idOf?_object hid, bind, Except.bind, pure, Except.pure]
  cases henter.symm.trans hinner
  exact passed_of_admits hscope hargument rfl hadmits

/-! ### References between the parts -/

/-- What has passed as any schema has passed the schema of schemas. -/
theorem Passed.isVetted (h : Passed address anySchema x) (ha : address ∈ [core.1, applicator.1]) :
    IsVetted x := by
  obtain ⟨scope, place, depth, argument, hscope, hargument, hsite⟩ := h.exists_site (i := 0) rfl
  obtain ⟨target, inner, hfollow, hvalue, hinner⟩ := follow_meta hscope ha
  rw [Site.reference_eq_nil_iff (.inr rfl), hargument] at hsite
  obtain ⟨_, _, hfollow', hadmits⟩ := hsite
  cases hfollow.symm.trans hfollow'
  exact passed_of_admits hinner hvalue rfl hadmits

/-- The vocabulary of keywords that apply schemas has been passed with the dialect. -/
theorem IsVetted.passed_applicator (h : IsVetted x) :
    Passed applicator.1 applicator.2 x := by
  obtain ⟨scope, place, depth, argument, hscope, hargument, hsite⟩ := Passed.exists_site h (i := 4) rfl
  have hway : argument.part 1 (reference "meta/applicator") ∈ argument.items := by
    refine Located.mem_items_iff.mpr ⟨1, _, ?_, rfl⟩
    rw [hargument]
    rfl
  obtain ⟨scope, place, depth, argument, hscope, hargument, hsite⟩ :=
    (passed_of_enters hscope rfl (by simp [List.lookup_cons])
      (Site.allOf_eq_nil_iff.mp hsite _ hway)).exists_site (i := 0) rfl
  have hresolve : scope.resolve "meta/applicator" = (vocabularyAddress "applicator", "") := by
    have hall := List.all_eq_true.mp resolve_vocabulary "applicator" (by simp)
    rw [beq_iff_eq] at hall
    rw [← show "meta/" ++ "applicator" = "meta/applicator" from rfl, ← hall]
    simp only [Scope.resolve, hscope.base_eq]
  have hfollow := follow_root hresolve (find?_registry (i := 2) rfl)
  rw [Site.reference_eq_nil_iff (.inl rfl), hargument] at hsite
  obtain ⟨_, _, hfollow', hadmits⟩ := hsite
  cases hfollow.symm.trans hfollow'
  exact passed_of_admits (hscope.moveTo
    (by simp [applicator, vocabulary, vocabularyAddress, baseAddress]) (.inl List.mem_cons_self)) rfl rfl hadmits

/-! ### Keywords that hold schemas -/

/-- The lists of schemas. -/
def schemaArray : List (String × Value) :=
  [("type", .str "array"), ("minItems", .int 1), ("items", anySchema)]

theorem Passed.of_schemaArray (h : Passed applicator.1 (reference "#/$defs/schemaArray") x) :
    Passed applicator.1 (.object schemaArray) x := by
  obtain ⟨scope, place, depth, argument, hscope, hargument, hsite⟩ := h.exists_site (i := 0) rfl
  have hroot : registry.find? scope.base = some ⟨applicator.2, ⟨2, []⟩⟩ := by
    rw [hscope.base_eq]
    exact find?_registry (i := 2) rfl
  have hdefinitions : applicator.2.get? "$defs" =
      some (.object [("schemaArray", .object schemaArray)]) := by
    rw [applicator, vocabulary, Value.get?_object]
    simp [List.lookup_cons, ofType, schemaArray]
  have hname : IsPlainName "schemaArray" := ⟨by decide, by decide⟩
  obtain ⟨target, hfollow, hvalue, _⟩ := follow_own hname
    hdefinitions (List.lookup_cons_self ..) (idOf?_object (by simp [schemaArray, List.lookup_cons]))
    hroot
  rw [Site.reference_eq_nil_iff (.inl rfl), hargument] at hsite
  obtain ⟨_, _, hfollow', hadmits⟩ := hsite
  cases hfollow.symm.trans hfollow'
  refine passed_of_admits (hscope.base_eq ▸ ?_) hvalue rfl hadmits
  exact hscope.moveTo (hscope.base_eq ▸ hscope.address_ne) (.inr hscope.base_eq)

/-- What a keyword that applies schemas holds has passed the part for the keyword. -/
theorem IsVetted.passed {keyword : String} {value : Value} {keywords : List (String × Value)}
    (h : IsVetted x) (hvalue : x.get? keyword = some value)
    (hpart : (keyword, .object keywords) ∈ describedBy applicator.2)
    (hid : keywords.lookup "$id" = none) : Passed applicator.1 (.object keywords) value := by
  obtain ⟨entries, rfl⟩ : ∃ entries, x = .map entries := by
    unfold Value.get? at hvalue
    split at hvalue
    · exact ⟨_, rfl⟩
    · cases hvalue
  rw [applicator, describedBy_vocabulary] at hpart
  obtain ⟨scope, place, depth, argument, hscope, hargument, hsite⟩ :=
    Passed.exists_site h.passed_applicator (i := 5) rfl
  obtain ⟨i, hi⟩ := List.getElem?_of_mem hpart
  have hinner : (.str keyword, argument.part i (.object keywords)) ∈ argument.entries := by
    refine Located.mem_entries_iff.mpr ⟨i, _, ?_, rfl⟩
    rw [hargument]
    exact Value.getElem?_object hi
  refine passed_of_enters hscope rfl hid
    (Site.properties_eq_nil_iff.mp hsite entries rfl (.str keyword) _ hinner value ?_)
  rw [valueAt?, Value.lookupScalar_str]
  exact hvalue

/-- A keyword that holds a schema holds one that has passed the check. -/
theorem IsVetted.isVetted_of_get? {keyword : String} {value : Value} (h : IsVetted x)
    (hkeyword : keyword ∈ ["items", "additionalProperties"]) (hvalue : x.get? keyword = some value) :
    IsVetted value := by
  have hpart : (keyword, anySchema) ∈ describedBy applicator.2 := by
    rw [applicator, describedBy_vocabulary]
    simp only [List.mem_cons, List.not_mem_nil, or_false] at hkeyword
    rcases hkeyword with rfl | rfl
    · exact List.mem_cons_of_mem _ List.mem_cons_self
    · exact List.mem_of_getElem? (i := 3) rfl
  exact (h.passed hvalue hpart rfl).isVetted (by simp)

/-- A keyword that holds schemas by name holds a mapping to schemas that have passed the check. -/
theorem IsVetted.exists_entries {keyword : String} {value : Value} (h : IsVetted x)
    (hkeyword : keyword ∈ ["properties", "patternProperties"]) (hvalue : x.get? keyword = some value) :
    ∃ entries, value = .map entries ∧ ∀ e ∈ entries, IsVetted e.2 := by
  obtain ⟨more, hmore, hpatterns, hproperties, hpart⟩ : ∃ more, more.lookup "$id" = none ∧
      more.lookup "patternProperties" = none ∧ more.lookup "properties" = none ∧
      (keyword, Value.object (("type", .str "object") :: ("additionalProperties", anySchema) :: more)) ∈
        describedBy applicator.2 := by
    rw [applicator, describedBy_vocabulary]
    simp only [List.mem_cons, List.not_mem_nil, or_false] at hkeyword
    rcases hkeyword with rfl | rfl
    · exact ⟨[], rfl, rfl, rfl, List.mem_of_getElem? (i := 4) rfl⟩
    · exact ⟨[("propertyNames", .object [("format", .str "regex")])], rfl, rfl, rfl,
        List.mem_of_getElem? (i := 5) rfl⟩
  have hpassed := h.passed hvalue hpart (by simpa [List.lookup_cons] using hmore)
  obtain ⟨_, _, _, _, _, hname, htype⟩ := hpassed.exists_site (i := 0) rfl
  rw [Site.type_eq_nil_iff (t := .object) hname (by decide)] at htype
  obtain ⟨entries, rfl⟩ : ∃ entries, value = .map entries := by
    cases value with
    | map entries => exact ⟨entries, rfl⟩
    | scalar s => cases s <;> cases htype
    | list items => cases htype
  refine ⟨entries, rfl, fun e he => ?_⟩
  obtain ⟨scope, place, depth, argument, hscope, hargument, hsite⟩ := hpassed.exists_site (i := 1) rfl
  rw [Site.additionalProperties_eq_nil_iff (by rw [hargument]; rfl)] at hsite
  obtain ⟨extras, hextras, henters⟩ := hsite entries rfl
  -- the part declares no properties, so all of them are further ones
  have hpatternless : (Value.object (("type", .str "object") :: ("additionalProperties", anySchema) ::
      more)).get? "patternProperties" = none := by
    rw [Value.get?_object]
    simpa [List.lookup_cons] using hpatterns
  obtain ⟨_, hextras', hall⟩ := exists_undeclared hpatternless entries
  cases hextras'.symm.trans hextras
  refine (passed_of_enters hscope hargument rfl (henters e ((hall e).mpr ⟨he, ?_⟩))).isVetted (by simp)
  rw [Value.get?_object]
  simp only [List.lookup_cons, hproperties]
  cases e.1 with
  | _ => rfl

/-- A keyword that holds a list of schemas holds schemas that have passed the check. -/
theorem IsVetted.exists_items {keyword : String} {value : Value} (h : IsVetted x)
    (hkeyword : keyword ∈ ["oneOf", "anyOf", "allOf"]) (hvalue : x.get? keyword = some value) :
    ∃ items, value = .list items ∧ ∀ v ∈ items, IsVetted v := by
  have hpart : (keyword, reference "#/$defs/schemaArray") ∈ describedBy applicator.2 := by
    rw [applicator, describedBy_vocabulary]
    simp only [List.mem_cons, List.not_mem_nil, or_false] at hkeyword
    rcases hkeyword with rfl | rfl | rfl
    · exact List.mem_of_getElem? (i := 13) rfl
    · exact List.mem_of_getElem? (i := 12) rfl
    · exact List.mem_of_getElem? (i := 11) rfl
  have hpassed := (h.passed hvalue hpart rfl).of_schemaArray
  obtain ⟨_, _, _, _, _, hname, htype⟩ := hpassed.exists_site (i := 0) rfl
  rw [Site.type_eq_nil_iff (t := .array) hname (by decide)] at htype
  obtain ⟨items, rfl⟩ : ∃ items, value = .list items := by
    cases value with
    | list items => exact ⟨items, rfl⟩
    | scalar s => cases s <;> cases htype
    | map entries => cases htype
  refine ⟨items, rfl, fun v hv => ?_⟩
  obtain ⟨scope, place, depth, argument, hscope, hargument, hsite⟩ := hpassed.exists_site (i := 2) rfl
  rw [Site.items_eq_nil_iff (by simp [hargument, anySchema, Value.object]) (by
    rw [Value.get?_object]
    simp [schemaArray, List.lookup_cons])] at hsite
  exact (passed_of_enters hscope hargument rfl (hsite items rfl v hv)).isVetted (by simp)

/-- A schema with which nothing is wrong has passed the check. -/
theorem isVetted_of_complaint? (h : complaint? x = .ok none) : IsVetted x := by
  obtain ⟨found, hfound, h⟩ := bind_eq_ok_iff.mp h
  obtain ⟨best, hbest, h⟩ := bind_eq_ok_iff.mp h
  obtain ⟨rated, hrated, hbest⟩ := bind_eq_ok_iff.mp hbest
  cases hmost : Violation.mostRelevant rated with
  | some most =>
    simp only [hmost] at hbest
    obtain ⟨_, _, hbest⟩ := bind_eq_ok_iff.mp hbest
    cases hbest
    cases h
  | none =>
    have hnil : rated = [] := by
      cases rated with
      | nil => rfl
      | cons v rest => cases hmost
    have hnone : found = [] := by
      cases found with
      | nil => rfl
      | cons v rest =>
        obtain ⟨r, hr, _⟩ := exists_eq_ok_of_mapM hrated List.mem_cons_self
        rw [hnil] at hr
        cases hr
    obtain ⟨id, hid, hcheck⟩ := bind_eq_ok_iff.mp hfound
    cases idOf?_schema.symm.trans hid
    rw [hnone] at hcheck
    exact ⟨_, _, _, isInside_dialect, hcheck⟩

end Schema.Metaschema

end BusinessModel
