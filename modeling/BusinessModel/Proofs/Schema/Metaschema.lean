import BusinessModel.Proofs.Schema.Meeting
import BusinessModel.Proofs.Schema.Reference
import BusinessModel.Schema.Metaschema

/-!
What meets the schema of schemas. A schema is checked by each vocabulary, which looks at the keywords
that it knows and has the schemas in them checked from the dialect on, so a mapping meets the schema
of schemas if its keywords are as the vocabularies describe them.
-/

namespace BusinessModel.Schema.Metaschema

/-! ### Inside the schema of schemas -/

/-- The addresses of the dialect and of the vocabularies that lead back to it. -/
def passed : List String := [dialect, core.1, applicator.1]

theorem map_fst_schemas : schemas.map (·.1) =
    ["https://json-schema.org/draft/2020-12/schema",
     "https://json-schema.org/draft/2020-12/meta/core",
     "https://json-schema.org/draft/2020-12/meta/applicator",
     "https://json-schema.org/draft/2020-12/meta/unevaluated",
     "https://json-schema.org/draft/2020-12/meta/validation",
     "https://json-schema.org/draft/2020-12/meta/meta-data",
     "https://json-schema.org/draft/2020-12/meta/format-annotation",
     "https://json-schema.org/draft/2020-12/meta/content"] := by
  simp [schemas, core, applicator, unevaluated, validation, metaData, formatAnnotation, content,
    vocabulary, vocabularyAddress, dialect, baseAddress]

theorem dropHashes_of_mem {e : String × Value} (he : e ∈ schemas) : Address.dropHashes e.1 = e.1 := by
  have hall : (schemas.map (·.1)).all (fun a => a.toList.getLast? != some '#') = true := by
    rw [map_fst_schemas]
    decide
  have hmem : e.1 ∈ schemas.map (·.1) := List.mem_map_of_mem he
  exact Address.dropHashes_eq (by simpa using List.all_eq_true.mp hall _ hmem)

theorem find?_registry {i : Nat} {address : String} {v : Value}
    (h : schemas[i]? = some (address, v)) : registry.find? address = some ⟨v, ⟨i, []⟩⟩ := by
  refine Registry.find?_ofSchemas (fun _ => dropHashes_of_mem) ?_ h
  rw [map_fst_schemas]
  simp

theorem anchor_meta : (passed.all fun a => (registry.anchor? a "meta").toOption.any fun x =>
    x.dynamic && x.name == "meta" && (a != dialect || x.target.place == ⟨0, []⟩)) = true := by
  decide

/-- A scope on the way through the schema of schemas, at the part with an address. The way has begun
at the dialect. -/
structure IsInside (scope : Scope) (address : String) : Prop where
  base_eq : scope.base = address
  address_ne : address ≠ ""
  known : ∀ a ∈ scope.previous, a ∈ passed
  outermost : (address :: scope.previous).getLast? = some dialect

theorem isInside_dialect : IsInside { base := dialect } dialect :=
  ⟨rfl, by decide, by simp, rfl⟩

/-- Another part is reached from one that leads back to the dialect, and each part from itself. -/
theorem IsInside.moveTo {scope : Scope} {a b : String} (h : IsInside scope a) (hb : b ≠ "")
    (hway : a ∈ passed ∨ b = a) : IsInside (scope.moveTo b) b := by
  obtain ⟨rfl, hne, hknown, houtermost⟩ := h
  unfold Scope.moveTo
  by_cases hstay : scope.previous ≠ [] ∧ b = scope.base
  · obtain ⟨hsome, rfl⟩ := hstay
    have hkept : (!scope.base.isEmpty && (scope.previous.isEmpty || scope.base != scope.base)) =
        false := by
      simp [hsome]
    simp only [hkept, Bool.false_eq_true, if_false]
    exact ⟨rfl, hne, hknown, houtermost⟩
  · have hpushed : (!scope.base.isEmpty && (scope.previous.isEmpty || b != scope.base)) = true := by
      by_cases hnone : scope.previous = []
      · simp [hne, hnone]
      · have hmoved : b ≠ scope.base := fun heq => hstay ⟨hnone, heq⟩
        simp [hne, hmoved]
    have hbase : scope.base ∈ passed := by
      rcases hway with hway | rfl
      · exact hway
      · have hnone : scope.previous = [] := by
          by_contra hsome
          exact hstay ⟨hsome, rfl⟩
        rw [hnone, List.getLast?_singleton, Option.some.injEq] at houtermost
        rw [houtermost]
        exact List.mem_cons_self
    simp only [hpushed, if_true]
    refine ⟨rfl, hb, fun x hx => ?_, ?_⟩
    · rcases List.mem_cons.mp hx with rfl | hx
      · exact hbase
      · exact hknown x hx
    · rw [List.getLast?_cons_cons]
      exact houtermost

/-- Whatever schemas stand on the way, a dynamic reference leads back to the dialect. -/
theorem exists_dynamicTarget {scope : Scope} (hknown : ∀ a ∈ scope.previous, a ∈ passed)
    (houtermost : scope.previous.getLast? = some dialect) (anchor : Anchor)
    (hname : anchor.name = "meta") :
    ∃ target, dynamicTarget registry scope anchor = .ok target ∧ target.value = schema := by
  have hstep {a : String} (ha : a ∈ passed) : ∃ b, registry.anchor? a "meta" = .ok b ∧
      b.dynamic = true ∧ (a = dialect → b.target.value = schema) := by
    obtain ⟨b, hb, htest⟩ := exists_of_any_toOption (List.all_eq_true.mp anchor_meta a ha)
    simp only [Bool.and_eq_true, beq_iff_eq, Bool.or_eq_true, bne_iff_ne] at htest
    refine ⟨b, hb, htest.1.1, fun hdialect => ?_⟩
    have hplace := htest.2.resolve_left fun hne => hne hdialect
    have hin := (Registry.isOver_ofSchemas schemas).of_anchor? hb
    rw [Located.IsIn, hplace] at hin
    exact (Option.some.inj hin).symm
  obtain ⟨base, previous⟩ := scope
  dsimp only at hknown houtermost
  induction previous generalizing anchor with
  | nil => cases houtermost
  | cons a rest ih =>
    obtain ⟨b, hb, hdynamic, htarget⟩ := hstep (hknown a List.mem_cons_self)
    have hnext : dynamicTarget registry ⟨base, a :: rest⟩ anchor =
        dynamicTarget registry ⟨base, rest⟩ { anchor with target := b.target } := by
      simp only [dynamicTarget, List.foldlM_cons, hname, hb, hdynamic, if_true]
      rfl
    rw [hnext]
    cases rest with
    | nil =>
      refine ⟨b.target, rfl, htarget ?_⟩
      simpa using houtermost
    | cons a' rest' =>
      rw [List.getLast?_cons_cons] at houtermost
      exact ih _ hname (fun x hx => hknown x (List.mem_cons_of_mem _ hx)) houtermost

theorem join_dialect : ([core.1, applicator.1].all fun a => Address.join a dialect == dialect) =
    true := by
  decide

theorem find?_passed {a : String} (ha : a ∈ [core.1, applicator.1]) :
    ∃ root, registry.find? a = some root := by
  rcases List.mem_cons.mp ha with rfl | ha
  · exact ⟨_, find?_registry (i := 1) rfl⟩
  · rw [List.mem_singleton.mp ha]
    exact ⟨_, find?_registry (i := 2) rfl⟩

theorem ne_dialect {a : String} (ha : a ∈ [core.1, applicator.1]) : a ≠ dialect := by
  have hcore : core.1 ≠ dialect := by
    simp [core, vocabulary, vocabularyAddress, dialect, baseAddress]
  have happlicator : applicator.1 ≠ dialect := by
    simp [applicator, vocabulary, vocabularyAddress, dialect, baseAddress]
  rcases List.mem_cons.mp ha with rfl | ha
  · exact hcore
  · rw [List.mem_singleton.mp ha]
    exact happlicator

theorem idOf?_schema : idOf? schema = .ok (some dialect) := by
  have hid : idOf? schema = .ok (some (Address.dropHashes dialect)) := rfl
  rw [hid, Address.dropHashes_eq (by decide)]

/-- From the vocabularies that describe schemas inside schemas, the way leads back to the dialect. -/
theorem follow_meta {scope : Scope} {a : String} (h : IsInside scope a)
    (ha : a ∈ [core.1, applicator.1]) : ∃ target inner,
      follow registry scope "#meta" = .ok (target, inner) ∧ target.value = schema ∧
        IsInside inner dialect := by
  have hpassed : a ∈ passed := List.mem_cons_of_mem _ ha
  obtain ⟨root, hroot⟩ := find?_passed ha
  obtain ⟨b, hb, htest⟩ := exists_of_any_toOption (List.all_eq_true.mp anchor_meta a hpassed)
  simp only [Bool.and_eq_true, beq_iff_eq] at htest
  have hmoved := h.moveTo h.address_ne (.inl hpassed)
  have houtermost : (scope.moveTo a).previous.getLast? = some dialect := by
    cases hprevious : (scope.moveTo a).previous with
    | nil =>
      have hlast := hmoved.outermost
      rw [hprevious, List.getLast?_singleton, Option.some.injEq] at hlast
      exact absurd hlast (ne_dialect ha)
    | cons x rest =>
      have hlast := hmoved.outermost
      rwa [hprevious, List.getLast?_cons_cons] at hlast
  obtain ⟨target, htarget, hvalue⟩ :=
    exists_dynamicTarget hmoved.known houtermost b htest.1.2
  have hdialect : Address.join a dialect = dialect :=
    beq_iff_eq.mp (List.all_eq_true.mp join_dialect a ha)
  have hresolve : scope.resolve "#meta" = (a, "meta") := by
    simp [Scope.resolve, h.base_eq]
  have henter : (scope.moveTo a).enter target.value =
      .ok { scope.moveTo a with base := dialect } := by
    simp [Scope.enter, hvalue, idOf?_schema, hmoved.base_eq, hdialect, bind, Except.bind, pure,
      Except.pure]
  refine ⟨target, { scope.moveTo a with base := dialect }, ?_, hvalue, rfl, by decide,
    hmoved.known, ?_⟩
  · unfold follow
    simp only [hresolve, hroot]
    simp [hb, htest.1.1, htarget, henter, bind, Except.bind, pure, Except.pure]
  · cases hprevious : (scope.moveTo a).previous with
    | nil =>
      rw [hprevious] at houtermost
      cases houtermost
    | cons x rest =>
      rw [hprevious] at houtermost
      rw [List.getLast?_cons_cons]
      exact houtermost

/-! ### Parts of the schema of schemas -/

/-- The value meets a part of the schema of schemas, however the way has led there, if the check may
go as deep as the given number. -/
def Meets (least : Nat) (address : String) (part x : Value) : Prop :=
  ∀ (scope : Scope) (place : Place) (depth : Nat), IsInside scope address → least ≤ depth →
    check registry depth scope ⟨part, place⟩ x = .ok []

/-- The value passes a keyword of a part of the schema of schemas. -/
def Passes (least : Nat) (address : String) (part x : Value) (keyword : String)
    (value : Value) : Prop :=
  ∀ (scope : Scope) (place : Place) (depth : Nat) (argument : Located), IsInside scope address →
    least ≤ depth → argument.value = value →
    keywordViolations ⟨registry, scope, ⟨part, place⟩, x, check registry depth⟩ depth keyword
      argument = .ok []

/-- The value is as the schema at a keyword asks: any value, or one that meets a part without an
address of its own. -/
def Takes (least : Nat) (address : String) (part x : Value) : Prop :=
  part = .bool true ∨ (part.isMap = true ∧ idOf? part = .ok none ∧ Meets least address part x)

variable {least more depth : Nat} {address : String} {part x y : Value}

theorem Meets.mono (h : Meets least address part x) (hle : least ≤ more) :
    Meets more address part x :=
  fun scope place depth hscope hdepth => h scope place depth hscope (Nat.le_trans hle hdepth)

theorem Takes.mono (h : Takes least address part x) (hle : least ≤ more) :
    Takes more address part x :=
  h.imp_right fun ⟨hmap, hid, hmeets⟩ => ⟨hmap, hid, hmeets.mono hle⟩

theorem Takes.enters (h : Takes least address part x) {scope : Scope} (hscope : IsInside scope address)
    (hdepth : least ≤ depth) {s argument : Located} (hargument : argument.value = part) :
    (⟨registry, scope, s, y, check registry depth⟩ : Site).Enters argument x := by
  rcases h with rfl | ⟨hmap, hid, hmeets⟩
  · refine ⟨scope, ?_, .inl hargument⟩
    rw [hargument]
    rfl
  · refine ⟨scope, ?_, .inr ⟨?_, ?_⟩⟩
    · simp [Scope.enter, hargument, hid, bind, Except.bind, pure, Except.pure]
    · intro hfalse
      rw [← hargument, hfalse] at hmap
      cases hmap
    · obtain ⟨v, place⟩ := argument
      cases hargument
      exact hmeets scope place depth hscope hdepth

/-- A mapping meets a part if it passes each of its keywords. -/
theorem meets_object {keywords : List (String × Value)}
    (h : ∀ e ∈ keywords, Passes least address (.object keywords) x e.1 e.2) :
    Meets (least + 1) address (.object keywords) x := by
  intro scope place depth hscope hdepth
  obtain ⟨depth, rfl⟩ : ∃ d, depth = d + 1 := ⟨depth - 1, by omega⟩
  rw [check_eq_nil_iff rfl]
  intro keyword argument hmem
  obtain ⟨i, v, hv, rfl⟩ := Located.mem_entries_iff.mp hmem
  obtain ⟨e, he, heq⟩ := List.mem_map.mp (List.mem_of_getElem? hv)
  cases heq
  exact h e he scope place depth _ hscope (by omega) rfl

/-! ### Keywords of the schema of schemas -/

section Keywords

variable {keyword : String} {value : Value}

/-- Keywords that say nothing about values. -/
theorem passes_silent (h : keyword ∈ ["$schema", "$id", "$dynamicAnchor", "title", "$defs"]) :
    Passes least address part x keyword value := by
  intro scope place depth argument _ _ _
  simp only [List.mem_cons, List.not_mem_nil, or_false] at h
  rcases h with rfl | rfl | rfl | rfl | rfl
  all_goals rfl

theorem passes_type {t : ValueType} (h : t.holds x = true) :
    Passes least address part x "type" (.str t.text) := by
  intro scope place depth argument _ _ hargument
  refine (Site.type_eq_nil_iff hargument ?_).mpr h
  cases t <;> decide

/-- A schema is a mapping or a truth value. -/
theorem passes_types (h : (∃ b, x = .bool b) ∨ x.isMap = true) :
    Passes least address part x "type" (.texts ["object", "boolean"]) := by
  intro scope place depth argument _ _ hargument
  rw [Site.complaint_eq_nil_iff rfl, hargument]
  rcases h with ⟨b, rfl⟩ | hmap
  · rfl
  · obtain ⟨entries, rfl⟩ := Value.isMap_iff.mp hmap
    rfl

/-- A reference to a definition of the same part. -/
theorem passes_ref {name : String} {definitions : List (String × Value)} {i : Nat} {root v : Value}
    (hname : IsPlainName name) (hvalue : value = .str ("#/$defs/" ++ name))
    (hroot : schemas[i]? = some (address, root))
    (hdefinitions : root.get? "$defs" = some (.object definitions))
    (hv : definitions.lookup name = some v) (hmap : v.isMap = true) (hid : idOf? v = .ok none)
    (hmeets : Meets least address v x) : Passes least address part x "$ref" value := by
  intro scope place depth argument hscope hdepth hargument
  have hbase := hscope.base_eq
  have hfind : registry.find? scope.base = some ⟨root, ⟨i, []⟩⟩ := by
    rw [hbase]
    exact find?_registry hroot
  obtain ⟨target, htarget, rfl, _⟩ := follow_own hname hdefinitions hv hid hfind
  rw [Site.reference_eq_nil_iff (.inl rfl), hargument, hvalue]
  refine ⟨target, _, htarget, .inr ⟨?_, ?_⟩⟩
  · intro hfalse
    rw [hfalse] at hmap
    cases hmap
  · rw [hbase]
    exact hmeets _ target.place depth (hscope.moveTo hscope.address_ne (.inr rfl)) hdepth

/-- A reference to any schema. -/
theorem passes_dynamicRef (ha : address ∈ [core.1, applicator.1])
    (hmeets : Meets least dialect schema x) :
    Passes least address part x "$dynamicRef" (.str "#meta") := by
  intro scope place depth argument hscope hdepth hargument
  obtain ⟨target, inner, htarget, hvalue, hinner⟩ := follow_meta hscope ha
  rw [Site.reference_eq_nil_iff (.inr rfl), hargument]
  refine ⟨target, inner, htarget, .inr ⟨?_, ?_⟩⟩
  · intro hfalse
    rw [hvalue] at hfalse
    cases hfalse
  · rw [← hvalue] at hmeets
    exact hmeets inner target.place depth hinner hdepth

/-- The properties of a mapping are as a part describes them; a truth value has none. -/
def IsDescribed (least : Nat) (address : String) (properties : List (String × Value))
    (x : Value) : Prop :=
  (∃ b, x = .bool b) ∨ ∃ entries, x = .object entries ∧
    ∀ e ∈ properties, ∀ v, (e.1, v) ∈ entries → Takes least address e.2 v

theorem passes_properties {properties : List (String × Value)}
    (h : IsDescribed least address properties x) :
    Passes least address part x "properties" (.object properties) := by
  intro scope place depth argument hscope hdepth hargument
  rw [Site.properties_eq_nil_iff]
  intro entries' hentries key inner hinner v hv
  obtain ⟨i, w, hw, rfl⟩ := Located.mem_entries_iff.mp hinner
  rw [hargument] at hw
  obtain ⟨e, he, heq⟩ := List.mem_map.mp (List.mem_of_getElem? hw)
  cases heq
  rcases h with ⟨b, rfl⟩ | ⟨entries, hx, h⟩
  · cases hentries
  · cases hx.symm.trans hentries
    have hlookup := (valueAt?_object entries e.1).symm.trans hv
    exact (h e he v (mem_of_lookup hlookup)).enters hscope hdepth rfl

theorem passes_additionalProperties {entries : List (String × Value)} (hx : x = .object entries)
    (hpatterns : part.get? "patternProperties" = none) (hmap : value.isMap = true)
    (h : ∀ e ∈ entries, Takes least address value e.2) :
    Passes least address part x "additionalProperties" value := by
  intro scope place depth argument hscope hdepth hargument
  rw [Site.additionalProperties_eq_nil_iff (by rw [hargument]; exact hmap)]
  intro entries' hentries
  cases hx.symm.trans hentries
  obtain ⟨extras, hextras, hmem⟩ := exists_undeclared hpatterns (entries.map fun e => (.str e.1, e.2))
  refine ⟨extras, hextras, fun e he => ?_⟩
  obtain ⟨e', he', rfl⟩ := List.mem_map.mp ((hmem e).mp he).1
  exact (h e' he').enters hscope hdepth hargument

theorem passes_items {items : List Value} (hx : x = .list items)
    (hfront : part.get? "prefixItems" = none) (hany : value ≠ .bool false)
    (h : ∀ v ∈ items, Takes least address value v) :
    Passes least address part x "items" value := by
  intro scope place depth argument hscope hdepth hargument
  rw [Site.items_eq_nil_iff (by rw [hargument]; exact hany) hfront]
  intro items' hitems v hv
  cases hx.symm.trans hitems
  exact (h v hv).enters hscope hdepth hargument

/-- A choice is passed if its first way is taken. -/
theorem passes_anyOf {way : Value} {rest : List Value} (h : Takes least address way x) :
    Passes least address part x "anyOf" (.list (way :: rest)) := by
  intro scope place depth argument hscope hdepth hargument
  obtain ⟨v, place'⟩ := argument
  cases hargument
  have henters : (⟨registry, scope, ⟨part, place⟩, x, check registry depth⟩ : Site).Enters
      ((⟨.list (way :: rest), place'⟩ : Located).part 0 way) x :=
    h.enters hscope hdepth rfl
  exact Site.anyOf_eq_nil_of_head rfl henters

/-- A keyword that looks at the value alone is passed if it has nothing to say. -/
theorem passes_of_complaint (h : ∀ site depth argument,
    applyKeyword site depth keyword argument = none)
    (hcomplaint : Schema.complaint? keyword value x = .ok none) :
    Passes least address part x keyword value := by
  intro scope place depth argument _ _ hargument
  rw [Site.complaint_eq_nil_iff (h _ _ _), hargument]
  exact hcomplaint

theorem passes_format {format text : String} (hx : x = .str text)
    (h : Format.accepts format text = true) :
    Passes least address part x "format" (.str format) := by
  refine passes_of_complaint (fun _ _ _ => rfl) ?_
  subst hx
  exact congrArg Except.ok (Site.complainUnless_eq_none_iff.mpr h)

theorem passes_minItems {v : Value} {rest : List Value} (hx : x = .list (v :: rest)) :
    Passes least address part x "minItems" (.int 1) := by
  refine passes_of_complaint (fun _ _ _ => rfl) ?_
  subst hx
  have hbelow : isBelow (rest.length + 1) (.int 1) = false := by
    have hcompare : compare ((rest.length : Int) + 1) 1 ≠ .lt := by
      rw [ne_eq, Std.compare_eq_lt]
      omega
    simpa [isBelow, countScalar, Scalar.compareNumbers?, Scalar.asNumber] using hcompare
  simp [Schema.complaint?, sizeFor?, sizeText?, hbelow]

theorem passes_uniqueItems {items : List Value} (hx : x = .list items)
    (h : hasDuplicates items = false) :
    Passes least address part x "uniqueItems" (.bool true) := by
  refine passes_of_complaint (fun _ _ _ => rfl) ?_
  subst hx
  simp [Schema.complaint?, h, complainUnless]

theorem passes_enum {words : List String} {word : String} (hx : x = .str word) (h : word ∈ words) :
    Passes least address part x "enum" (.texts words) := by
  refine passes_of_complaint (fun _ _ _ => rfl) ?_
  subst hx
  have hany : (words.map Value.str).any (·.alike (.str word)) = true :=
    List.any_eq_true.mpr ⟨.str word, List.mem_map_of_mem h, by simp [Value.alike, Scalar.alike, Scalar.same]⟩
  simp [Schema.complaint?, membersOf, Value.texts, Value.members?, hany, complainUnless, bind, Except.bind, pure, Except.pure]

theorem passes_pattern {written text : String} {p : Pattern} (hx : x = .str text)
    (hp : Pattern.parse? written = some p) (h : p.search text = true) :
    Passes least address part x "pattern" (.str written) := by
  intro scope place depth argument _ _ hargument
  exact (Site.pattern_eq_nil_iff hx hargument hp).mpr h

theorem passes_allOf {ways : List Value} (h : ∀ way ∈ ways, Takes least address way x) :
    Passes least address part x "allOf" (.list ways) := by
  intro scope place depth argument hscope hdepth hargument
  rw [Site.allOf_eq_nil_iff]
  intro way hway
  obtain ⟨i, v, hv, rfl⟩ := Located.mem_items_iff.mp hway
  rw [hargument] at hv
  exact (h v (List.mem_of_getElem? hv)).enters hscope hdepth rfl

end Keywords

/-! ### Parts made of keywords -/

theorem idOf?_object {keywords : List (String × Value)} (h : keywords.lookup "$id" = none) :
    idOf? (.object keywords) = .ok none := by
  have hid := (Value.get?_object keywords "$id").trans h
  simp only [Value.object, Value.get?] at hid
  simp [idOf?, Value.object, hid]

theorem takes_object {keywords : List (String × Value)} (hid : keywords.lookup "$id" = none)
    (h : ∀ e ∈ keywords, Passes least address (.object keywords) x e.1 e.2) :
    Takes (least + 1) address (.object keywords) x :=
  .inr ⟨rfl, idOf?_object hid, meets_object h⟩

theorem takes_ofType {t : ValueType} (h : t.holds x = true) :
    Takes (least + 1) address (ofType t.text []) x := by
  refine takes_object (by simp [List.lookup_cons]) fun e he => ?_
  rw [List.mem_singleton.mp he]
  exact passes_type h

/-- A value is as any schema asks if it meets the schema of schemas. -/
theorem takes_anySchema (ha : address ∈ [core.1, applicator.1]) (h : Meets least dialect schema x) :
    Takes (least + 1) address anySchema x := by
  refine takes_object (by simp [List.lookup_cons]) fun e he => ?_
  rw [List.mem_singleton.mp he]
  exact passes_dynamicRef ha h

/-- Schemas by name are as asked if each of them meets the schema of schemas. -/
theorem takes_schemaTable {entries : List (String × Value)} (ha : address ∈ [core.1, applicator.1])
    (h : ∀ e ∈ entries, Meets least dialect schema e.2) :
    Takes (least + 2) address (schemaTable []) (.object entries) := by
  refine takes_object (by simp [List.lookup_cons]) fun e he => ?_
  rcases List.mem_cons.mp he with rfl | he
  · exact passes_type (t := .object) rfl
  · rw [List.mem_singleton.mp he]
    refine passes_additionalProperties rfl ?_ rfl fun e he => takes_anySchema ha (h e he)
    rw [Value.get?_object]
    simp [List.lookup_cons]

section Definition

variable {i : Nat} {name title d text : String}
  {properties definitions keywords : List (String × Value)}
  (hs : schemas[i]? = some (vocabulary name title properties definitions))
  (htext : text = "#/$defs/" ++ d) (hplain : IsPlainName d)
  (hv : definitions.lookup d = some (.object keywords))
  (h : Takes least (vocabularyAddress name) (.object keywords) x)

include hs htext hplain hv h

/-- A reference to a definition of the same vocabulary is passed if the definition is met. -/
theorem passes_own : Passes least (vocabularyAddress name) part x "$ref" (.str text) := by
  have hdefinitions : (vocabulary name title properties definitions).2.get? "$defs" =
      some (.object definitions) := by
    have hsome : definitions ≠ [] := by
      rintro rfl
      cases hv
    rw [vocabulary, Value.get?_object]
    simp [List.lookup_cons, hsome]
  obtain ⟨_, hid, hmeets⟩ := h.resolve_left fun hany => by cases hany
  exact passes_ref hplain (by rw [htext]) hs hdefinitions hv rfl hid hmeets

theorem takes_own : Takes (least + 1) (vocabularyAddress name) (reference text) x := by
  refine takes_object (by simp [List.lookup_cons]) fun e he => ?_
  rw [List.mem_singleton.mp he]
  exact passes_own hs htext hplain hv h

end Definition

/-! ### Keywords of schemas -/

/-- The schemas that a part has for the keywords of schemas. -/
def describedBy (part : Value) : List (String × Value) :=
  ((part.get? "properties").getD .null).entries.map fun e => (e.1.text, e.2)

/-- The value of a keyword is as all parts of the schema of schemas ask that know the keyword. -/
def Accepts (least : Nat) (keyword : String) (value : Value) : Prop :=
  ∀ s ∈ schemas, ∀ e ∈ describedBy s.2, e.1 = keyword → Takes least s.1 e.2 value

theorem describedBy_vocabulary (name title : String) (properties definitions : List (String × Value)) :
    describedBy (vocabulary name title properties definitions).2 = properties := by
  have hproperties : (vocabulary name title properties definitions).2.get? "properties" =
      some (.object properties) := by
    rw [vocabulary, Value.get?_object]
    simp [List.lookup_cons]
  rw [describedBy, hproperties, Option.getD_some, Value.object, Value.entries, List.map_map]
  exact List.map_id _

theorem describedBy_schema : (describedBy schema).map (·.1) =
    ["definitions", "dependencies", "$recursiveAnchor", "$recursiveRef"] := rfl

/-- No keyword is described twice. -/
theorem nodup_described : (schemas.flatMap fun s => (describedBy s.2).map (·.1)).Nodup := by
  simp only [schemas, core, applicator, unevaluated, validation, metaData, formatAnnotation, content,
    List.flatMap_cons, List.flatMap_nil, describedBy_vocabulary, describedBy_schema, List.map_cons,
    List.map_nil, List.cons_append, List.nil_append]
  simp

/-- Only one part of the schema of schemas asks something of a keyword. -/
theorem accepts_of_described {i j : Nat} {s : String × Value} {keyword : String} {value : Value}
    (hs : schemas[i]? = some s) (hj : (describedBy s.2)[j]? = some (keyword, part))
    (h : Takes least s.1 part value) : Accepts least keyword value := by
  intro s' hs' e he hkeyword
  have hkeys : (schemas.flatMap fun s => (describedBy s.2).map fun e => (e, s.1)).map (·.1.1) =
      schemas.flatMap fun s => (describedBy s.2).map (·.1) := by
    simp [List.map_flatMap, Function.comp_def]
  have hrow {t : String × Value} {f : String × Value} (ht : t ∈ schemas) (hf : f ∈ describedBy t.2) :
      (f, t.1) ∈ schemas.flatMap fun s => (describedBy s.2).map fun e => (e, s.1) :=
    List.mem_flatMap.mpr ⟨t, ht, List.mem_map_of_mem hf⟩
  have hsame := List.inj_on_of_nodup_map (hkeys ▸ nodup_described)
    (hrow (List.mem_of_getElem? hs) (List.mem_of_getElem? hj)) (hrow hs' he) hkeyword.symm
  obtain ⟨heq, haddress⟩ := Prod.mk.inj hsame
  rw [← heq, ← haddress]
  exact h

theorem accepts_of_vocabulary {i j : Nat} {name title keyword : String} {value : Value}
    {properties definitions : List (String × Value)}
    (hs : schemas[i]? = some (vocabulary name title properties definitions))
    (hj : properties[j]? = some (keyword, part))
    (h : Takes least (vocabularyAddress name) part value) : Accepts least keyword value :=
  accepts_of_described hs (by rw [describedBy_vocabulary]; exact hj) h

theorem Accepts.mono {keyword : String} {value : Value} (h : Accepts least keyword value)
    (hle : least ≤ more) : Accepts more keyword value :=
  fun s hs e he hkeyword => (h s hs e he hkeyword).mono hle

/-- Nothing is asked of keywords that are not described. -/
theorem accepts_unknown {keyword : String} {value : Value}
    (h : keyword ∉ schemas.flatMap fun s => (describedBy s.2).map (·.1)) :
    Accepts least keyword value := by
  rintro s hs e he rfl
  exact absurd (List.mem_flatMap.mpr ⟨s, hs, List.mem_map_of_mem he⟩) h

section Words

variable {text : String}

theorem takes_text : Takes (least + 1) address (ofType "string" []) (.str text) :=
  takes_ofType (t := .string) rfl

theorem takes_formatted {format : String} (h : Format.accepts format text = true) :
    Takes (least + 1) address (ofType "string" [("format", .str format)]) (.str text) := by
  refine takes_object (by simp [List.lookup_cons]) fun e he => ?_
  rcases List.mem_cons.mp he with rfl | he
  · exact passes_type (t := .string) rfl
  · rw [List.mem_singleton.mp he]
    exact passes_format rfl h

theorem accepts_title : Accepts (least + 1) "title" (.str text) :=
  accepts_of_vocabulary (i := 5) (j := 0) rfl rfl takes_text

theorem accepts_description : Accepts (least + 1) "description" (.str text) :=
  accepts_of_vocabulary (i := 5) (j := 1) rfl rfl takes_text

theorem accepts_dialect : Accepts (least + 2) "$schema" (.str text) :=
  accepts_of_vocabulary (i := 1) (j := 1) rfl rfl
    (takes_own (i := 1) (d := "uriString") rfl rfl ⟨by decide, by decide⟩ rfl
      (takes_formatted rfl))

theorem accepts_reference : Accepts (least + 2) "$ref" (.str text) :=
  accepts_of_vocabulary (i := 1) (j := 2) rfl rfl
    (takes_own (i := 1) (d := "uriReferenceString") rfl rfl ⟨by decide, by decide⟩ rfl
      (takes_formatted rfl))

/-- The pattern of addresses without a part behind a number sign. -/
theorem accepts_id {p : Pattern} (hp : Pattern.parse? "^[^#]*#?$" = some p)
    (h : p.search text = true) : Accepts (least + 2) "$id" (.str text) := by
  refine accepts_of_vocabulary (i := 1) (j := 0) rfl rfl (takes_object rfl fun e he => ?_)
  rcases List.mem_cons.mp he with rfl | he
  · exact passes_own (i := 1) (d := "uriReferenceString") rfl rfl ⟨by decide, by decide⟩ rfl
      (takes_formatted rfl)
  · rw [List.mem_singleton.mp he]
    exact passes_pattern rfl hp h

theorem accepts_pattern (h : (Pattern.parse? text).isSome = true) :
    Accepts (least + 1) "pattern" (.str text) :=
  accepts_of_vocabulary (i := 4) (j := 10) rfl rfl (takes_formatted h)

end Words

theorem accepts_type {t : ValueType} : Accepts (least + 3) "type" (.str t.text) := by
  have hword : t.text ∈ ["array", "boolean", "integer", "null", "number", "object", "string"] := by
    cases t <;> decide
  refine accepts_of_vocabulary (i := 4) (j := 0) rfl rfl (takes_object rfl fun e he => ?_)
  rw [List.mem_singleton.mp he]
  refine passes_anyOf (takes_own (i := 4) (d := "simpleTypes") rfl rfl
    ⟨by decide, by decide⟩ rfl (takes_object rfl fun e he => ?_))
  rw [List.mem_singleton.mp he]
  exact passes_enum rfl hword

theorem accepts_number {keyword : String} (h : keyword ∈ ["minimum", "maximum"])
    (hx : ValueType.number.holds x = true) : Accepts (least + 1) keyword x := by
  rcases List.mem_cons.mp h with rfl | h
  · exact accepts_of_vocabulary (i := 4) (j := 6) rfl rfl (takes_ofType hx)
  · rw [List.mem_singleton.mp h]
    exact accepts_of_vocabulary (i := 4) (j := 4) rfl rfl (takes_ofType hx)

theorem takes_anyList {items : List Value} :
    Takes (least + 1) address (ofType "array" [("items", .bool true)]) (.list items) := by
  refine takes_object rfl fun e he => ?_
  rcases List.mem_cons.mp he with rfl | he
  · exact passes_type (t := .array) rfl
  · rw [List.mem_singleton.mp he]
    refine passes_items rfl ?_ (by simp) fun v _ => .inl rfl
    rw [Value.get?_object]
    simp [List.lookup_cons]

theorem accepts_list {items : List Value} {keyword : String} (h : keyword ∈ ["enum", "examples"]) :
    Accepts (least + 1) keyword (.list items) := by
  rcases List.mem_cons.mp h with rfl | h
  · exact accepts_of_vocabulary (i := 4) (j := 2) rfl rfl takes_anyList
  · rw [List.mem_singleton.mp h]
    exact accepts_of_vocabulary (i := 5) (j := 6) rfl rfl takes_anyList

/-- A text that is required is not required twice. -/
theorem accepts_required {names : List String} (h : names.Nodup) :
    Accepts (least + 3) "required" (.texts names) := by
  have hdistinct : hasDuplicates (names.map .str) = false := by
    induction names with
    | nil => rfl
    | cons name rest ih =>
      obtain ⟨hname, hrest⟩ := List.nodup_cons.mp h
      have hnone : (rest.map Value.str).any (Value.str name).alike = false := by
        rw [List.any_eq_false]
        intro v hv
        obtain ⟨other, hother, rfl⟩ := List.mem_map.mp hv
        have hne : name ≠ other := fun heq => hname (heq ▸ hother)
        simpa [Value.alike, Scalar.alike, Scalar.same] using hne
      rw [List.map_cons, hasDuplicates, hnone, ih hrest]
      rfl
  refine accepts_of_vocabulary (i := 4) (j := 18) rfl rfl (takes_own (i := 4)
    (d := "stringArray") rfl rfl ⟨by decide, by decide⟩ rfl (takes_object rfl fun e he => ?_))
  simp only [List.mem_cons, List.not_mem_nil, or_false] at he
  rcases he with rfl | rfl | rfl
  · exact passes_type (t := .array) rfl
  · refine passes_items rfl ?_ (by simp [ofType, Value.object]) fun v hv => ?_
    · rw [Value.get?_object]
      simp [List.lookup_cons]
    · obtain ⟨name, _, rfl⟩ := List.mem_map.mp hv
      exact takes_text
  · exact passes_uniqueItems rfl hdistinct

/-! ### Keywords that hold schemas -/

section Inner

variable (h : Meets least dialect schema x)

include h in
theorem accepts_inner {keyword : String}
    (hkeyword : keyword ∈ ["items", "additionalProperties", "propertyNames"]) :
    Accepts (least + 1) keyword x := by
  have hany : Takes (least + 1) (vocabularyAddress "applicator") anySchema x :=
    takes_anySchema (by simp [applicator, vocabulary]) h
  simp only [List.mem_cons, List.not_mem_nil, or_false] at hkeyword
  rcases hkeyword with rfl | rfl | rfl
  · exact accepts_of_vocabulary (i := 2) (j := 1) rfl rfl hany
  · exact accepts_of_vocabulary (i := 2) (j := 3) rfl rfl hany
  · exact accepts_of_vocabulary (i := 2) (j := 7) rfl rfl hany

end Inner

theorem accepts_table {entries : List (String × Value)} {keyword : String}
    (hkeyword : keyword ∈ ["properties", "$defs"])
    (h : ∀ e ∈ entries, Meets least dialect schema e.2) :
    Accepts (least + 2) keyword (.object entries) := by
  rcases List.mem_cons.mp hkeyword with rfl | hkeyword
  · exact accepts_of_vocabulary (i := 2) (j := 4) rfl rfl
      (takes_schemaTable (by simp [applicator, vocabulary]) h)
  · rw [List.mem_singleton.mp hkeyword]
    exact accepts_of_vocabulary (i := 1) (j := 8) rfl rfl
      (takes_schemaTable (by simp [core, vocabulary]) h)

theorem accepts_oneOf {way : Value} {ways : List Value}
    (h : ∀ v ∈ way :: ways, Meets least dialect schema v) :
    Accepts (least + 3) "oneOf" (.list (way :: ways)) := by
  refine accepts_of_vocabulary (i := 2) (j := 13) rfl rfl (takes_own (i := 2)
    (d := "schemaArray") rfl rfl ⟨by decide, by decide⟩ rfl (takes_object rfl fun e he => ?_))
  simp only [List.mem_cons, List.not_mem_nil, or_false] at he
  rcases he with rfl | rfl | rfl
  · exact passes_type (t := .array) rfl
  · exact passes_minItems rfl
  · refine passes_items rfl ?_ (by simp [anySchema, Value.object]) fun v hv =>
      takes_anySchema (by simp [applicator, vocabulary]) (h v hv)
    rw [Value.get?_object]
    simp [List.lookup_cons]

/-! ### Schemas -/

/-- The vocabularies by name. -/
theorem resolve_vocabulary : (["core", "applicator", "unevaluated", "validation", "meta-data",
    "format-annotation", "content"].all fun name =>
      Scope.resolve ⟨dialect, []⟩ ("meta/" ++ name) == (vocabularyAddress name, "")) = true := by
  decide

/-- A schema: a truth value, or a mapping whose keywords are as the parts of the schema of schemas
ask. -/
def IsSchema (least : Nat) (x : Value) : Prop :=
  (∃ b, x = .bool b) ∨ ∃ entries, x = .object entries ∧ ∀ e ∈ entries, Accepts least e.1 e.2

section Schema

variable (h : IsSchema least x)

include h

theorem passes_types_of_isSchema :
    Passes more address part x "type" (.texts ["object", "boolean"]) := by
  refine passes_types (h.imp_right ?_)
  rintro ⟨entries, rfl, _⟩
  rfl

theorem isDescribed_of_isSchema {s : String × Value} (hs : s ∈ schemas) :
    IsDescribed least s.1 (describedBy s.2) x := by
  refine h.imp_right ?_
  rintro ⟨entries, hx, haccepts⟩
  exact ⟨entries, hx, fun e he v hv => haccepts (e.1, v) hv s hs e he rfl⟩

/-- A vocabulary is met by schemas. -/
theorem meets_vocabulary {i : Nat} {name title : String}
    {properties definitions : List (String × Value)}
    (hs : schemas[i]? = some (vocabulary name title properties definitions)) :
    Meets (least + 1) (vocabularyAddress name) (vocabulary name title properties definitions).2
      x := by
  refine meets_object fun e he => ?_
  simp only [List.mem_append, List.mem_cons, List.not_mem_nil, or_false] at he
  rcases he with (rfl | rfl | rfl | rfl | rfl | rfl) | he
  · exact passes_silent (by simp)
  · exact passes_silent (by simp)
  · exact passes_silent (by simp)
  · exact passes_silent (by simp)
  · exact passes_types_of_isSchema h
  · have hdescribed := isDescribed_of_isSchema h (List.mem_of_getElem? hs)
    rw [describedBy_vocabulary] at hdescribed
    exact passes_properties hdescribed
  · split at he
    · cases he
    · rw [List.mem_singleton.mp he]
      exact passes_silent (by simp)

/-- The dialect asks what its vocabularies ask. -/
theorem takes_vocabulary {i : Nat} {name title text : String}
    {properties definitions : List (String × Value)}
    (hs : schemas[i]? = some (vocabulary name title properties definitions))
    (htext : text = "meta/" ++ name) (hname : name ∈ ["core", "applicator", "unevaluated",
      "validation", "meta-data", "format-annotation", "content"]) :
    Takes (least + 2) dialect (reference text) x := by
  refine takes_object rfl fun e he => ?_
  rw [List.mem_singleton.mp he]
  intro scope place depth argument hscope hdepth hargument
  have hresolve : scope.resolve text = (vocabularyAddress name, "") := by
    have hall := List.all_eq_true.mp resolve_vocabulary name hname
    rw [beq_iff_eq, ← htext] at hall
    rw [← hall]
    simp only [Scope.resolve, hscope.base_eq]
  have hne : vocabularyAddress name ≠ "" := by
    simp [vocabularyAddress, baseAddress]
  rw [Site.reference_eq_nil_iff (.inl rfl), hargument]
  refine ⟨_, _, follow_root hresolve (find?_registry hs), .inr ⟨by simp [Value.object], ?_⟩⟩
  exact meets_vocabulary h hs _ _ _ (hscope.moveTo hne (.inl List.mem_cons_self)) hdepth

/-- A schema meets the schema of schemas. -/
theorem meets_schema : Meets (least + 3) dialect schema x := by
  refine meets_object fun e he => ?_
  simp only [List.mem_cons, List.not_mem_nil, or_false] at he
  rcases he with rfl | rfl | rfl | rfl | rfl | rfl | rfl
  · exact passes_silent (by simp)
  · exact passes_silent (by simp)
  · exact passes_silent (by simp)
  · exact passes_silent (by simp)
  · refine passes_allOf fun way hway => ?_
    simp only [List.mem_cons, List.not_mem_nil, or_false] at hway
    rcases hway with rfl | rfl | rfl | rfl | rfl | rfl | rfl
    · exact takes_vocabulary (i := 1) h rfl rfl (by simp)
    · exact takes_vocabulary (i := 2) h rfl rfl (by simp)
    · exact takes_vocabulary (i := 3) h rfl rfl (by simp)
    · exact takes_vocabulary (i := 4) h rfl rfl (by simp)
    · exact takes_vocabulary (i := 5) h rfl rfl (by simp)
    · exact takes_vocabulary (i := 6) h rfl rfl (by simp)
    · exact takes_vocabulary (i := 7) h rfl rfl (by simp)
  · exact passes_types_of_isSchema h
  · refine passes_properties ?_
    have hdescribed : IsDescribed least dialect (describedBy schema) x :=
      isDescribed_of_isSchema h (s := (dialect, schema)) List.mem_cons_self
    refine hdescribed.imp_right ?_
    rintro ⟨entries, hx, htakes⟩
    exact ⟨entries, hx, fun e he v hv => (htakes e he v hv).mono (by omega)⟩

end Schema

/-- A schema that is met in time has nothing wrong with it. -/
theorem complaint?_eq_none (h : Meets least dialect schema x) (hleast : least ≤ checkDepth) :
    complaint? x = .ok none := by
  have hviolations : schemaViolations x = .ok [] := by
    refine bind_eq_ok_iff.mpr ⟨some dialect, idOf?_schema, ?_⟩
    rw [Option.getD_some]
    exact h ⟨dialect, []⟩ ⟨0, []⟩ checkDepth isInside_dialect hleast
  rw [complaint?, hviolations]
  rfl

end BusinessModel.Schema.Metaschema
