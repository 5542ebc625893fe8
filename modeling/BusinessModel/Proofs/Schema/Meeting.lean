import BusinessModel.Proofs.Schema.Engine

/-!
When values meet schemas: keyword by keyword, what a check asks of a value if it is to report
nothing.
-/

namespace BusinessModel

theorem Value.isMap_iff {v : Value} : v.isMap = true ↔ ∃ entries, v = .map entries := by
  cases v with
  | map entries => simp [isMap]
  | scalar s => simp [isMap]
  | list items => simp [isMap]

namespace ValueType

variable {v : Value}

theorem exists_bool_of_holds (h : boolean.holds v = true) : ∃ b, v = .bool b := by
  unfold holds at h
  split at h <;> simp_all

theorem exists_map_of_holds (h : object.holds v = true) : ∃ entries, v = .map entries := by
  unfold holds at h
  split at h <;> simp_all

theorem exists_list_of_holds (h : array.holds v = true) : ∃ items, v = .list items := by
  unfold holds at h
  split at h <;> simp_all

theorem exists_scalar_of_holds {t : ValueType} (harray : t ≠ .array) (hobject : t ≠ .object)
    (h : t.holds v = true) : ∃ a, v = .scalar a := by
  unfold holds at h
  split at h <;> simp_all

end ValueType

theorem Schema.valueAt?_object (es : List (String × Value)) (key : String) :
    Schema.valueAt? (.str key) (Value.object es).entries = es.lookup key := by
  simp only [Value.object, Value.entries, Schema.valueAt?]
  induction es with
  | nil => rfl
  | cons e rest ih =>
    obtain ⟨k, v⟩ := e
    rw [List.map_cons, Value.lookupScalar, ih, List.lookup_cons]
    cases hk : key == k with
    | true => simp [Scalar.same, hk]
    | false => simp [Scalar.same, hk]

namespace Schema

/-- Nothing is found in a list exactly if nothing is found in any of its members. -/
theorem flatten_mapM_eq_nil_iff {α β ε : Type} {f : α → Except ε (List β)} {xs : List α} :
    (xs.mapM f >>= fun lists => pure lists.flatten : Except ε (List β)) = .ok [] ↔
      ∀ x ∈ xs, f x = .ok [] := by
  constructor
  · intro h x hx
    obtain ⟨lists, hlists, hnil⟩ := bind_eq_ok_iff.mp h
    obtain ⟨list, hmem, hlist⟩ := exists_eq_ok_of_mapM hlists hx
    have hempty : lists.flatten = [] := Except.ok.inj hnil
    rw [hlist, List.flatten_eq_nil_iff.mp hempty list hmem]
  · intro h
    have hlists : xs.mapM f = .ok (xs.map fun _ => []) := by
      refine mapM_eq_ok_iff.mpr ?_
      rw [List.forall₂_map_right_iff]
      exact List.forall₂_same.mpr h
    rw [hlists]
    exact congrArg Except.ok (by simp)

theorem map_eq_nil_iff {α β ε : Type} {x : Except ε (List α)} {f : α → β} :
    (x >>= fun xs => pure (xs.map f) : Except ε (List β)) = .ok [] ↔ x = .ok [] := by
  cases x with
  | error e => simp [bind, Except.bind]
  | ok xs => simp [bind, Except.bind, pure, Except.pure]

/-- Checking a mapping as a schema reports nothing if none of its keywords does. -/
theorem check_eq_nil_iff {r : Registry} {depth : Nat} {scope : Scope} {schema : Located}
    {subject : Value} (hmap : schema.value.isMap = true) :
    check r (depth + 1) scope schema subject = .ok [] ↔
      ∀ keyword argument, (.str keyword, argument) ∈ schema.entries →
        keywordViolations ⟨r, scope, schema, subject, check r depth⟩ depth keyword argument =
          .ok [] := by
  unfold check
  split
  · next heq => simp [heq, Value.isMap] at hmap
  · next heq => simp [heq, Value.isMap] at hmap
  · refine flatten_mapM_eq_nil_iff.trans ⟨fun h keyword argument hmem => ?_, fun h e he => ?_⟩
    · have hvs := h _ hmem
      dsimp only at hvs
      split at hvs
      · obtain ⟨vs, hvs, hnil⟩ := bind_eq_ok_iff.mp hvs
        cases hnil
        exact hvs
      · exact map_eq_nil_iff.mp hvs
    · obtain ⟨key, argument⟩ := e
      dsimp only
      split
      · next keyword =>
        rw [h keyword argument he]
        split
        · rfl
        · rfl
      · rfl
  · next hother =>
    exfalso
    cases hvalue : schema.value with
    | map entries => exact hother entries hvalue
    | scalar s => simp [hvalue, Value.isMap] at hmap
    | list items => simp [hvalue, Value.isMap] at hmap

/-- Without patterns, the further properties are those that are not declared. -/
theorem exists_undeclared {schema : Value} (hpatterns : schema.get? "patternProperties" = none)
    (entries : List (Value × Value)) : ∃ extras, undeclared schema entries = .ok extras ∧
      ∀ e, e ∈ extras ↔
        e ∈ entries ∧ valueAt? e.1 ((schema.get? "properties").getD .null).entries = none := by
  refine ⟨entries.filter fun e =>
    (valueAt? e.1 ((schema.get? "properties").getD .null).entries).isNone, ?_, fun e => ?_⟩
  · rw [undeclared, hpatterns]
    change Except.ok (entries.filter _) = _
    refine congrArg Except.ok (List.filter_congr fun e _ => ?_)
    obtain ⟨key, x⟩ := e
    cases key with
    | scalar k => simp [valueAt?]
    | list items => simp [valueAt?]
    | map entries => simp [valueAt?]
  · rw [List.mem_filter, Option.isNone_iff_eq_none]

namespace Site

/-- The value meets the schema, when it is applied in the scope. -/
def Admits (s : Site) (scope : Scope) (schema : Located) (x : Value) : Prop :=
  schema.value = .bool true ∨ schema.value ≠ .bool false ∧ s.apply scope schema x = .ok []

/-- The value meets the inner schema, in the scope of its own address. -/
def Enters (s : Site) (schema : Located) (x : Value) : Prop :=
  ∃ scope, s.scope.enter schema.value = .ok scope ∧ s.Admits scope schema x

variable {s : Site} {depth : Nat} {argument schema : Located} {x : Value}

theorem enterAt_eq_nil_iff {path : Option Segment} {trail : Option String} :
    s.enterAt path trail schema x = .ok [] ↔ s.Enters schema x := by
  unfold Site.enterAt
  split
  · next htrue =>
    refine iff_of_true rfl ⟨s.scope, ?_, .inl htrue⟩
    rw [htrue]
    rfl
  · next hfalse =>
    refine iff_of_false (fun h => by cases h) ?_
    rintro ⟨_, _, htrue | ⟨hne, _⟩⟩
    · rw [hfalse] at htrue
      cases htrue
    · exact hne hfalse
  · next htrue hfalse =>
    rw [map_eq_nil_iff, Site.enter]
    split
    · next heq => exact absurd heq htrue
    · next heq => exact absurd heq hfalse
    · rw [bind_eq_ok_iff]
      refine exists_congr fun scope => and_congr_right fun _ => ?_
      exact ⟨fun h => .inr ⟨hfalse, h⟩, fun h => (h.resolve_left htrue).2⟩

/-! ### Keywords that apply schemas -/

theorem reference_eq_nil_iff {keyword : String}
    (hkeyword : keyword = "$ref" ∨ keyword = "$dynamicRef") :
    keywordViolations s depth keyword argument = .ok [] ↔
      ∃ target scope, follow s.registry s.scope argument.value.text = .ok (target, scope) ∧
        s.Admits scope target s.subject := by
  obtain ⟨f, happly, hf⟩ : ∃ f : Located × Scope → Except Fault (List Violation),
      keywordViolations s depth keyword argument =
        follow s.registry s.scope argument.value.text >>= f ∧
      ∀ target scope, f (target, scope) = .ok [] ↔ s.Admits scope target s.subject := by
    rcases hkeyword with rfl | rfl
    all_goals
      refine ⟨_, rfl, fun target scope => ?_⟩
      dsimp only
      split
      · next htrue => exact iff_of_true rfl (.inl htrue)
      · next hfalse =>
        refine iff_of_false (fun h => by cases h) fun hadmits => ?_
        rcases hadmits with htrue | ⟨hne, _⟩
        · rw [hfalse] at htrue
          cases htrue
        · exact hne hfalse
      · next htrue hfalse =>
        exact ⟨fun h => .inr ⟨hfalse, h⟩, fun h => (h.resolve_left htrue).2⟩
  rw [happly, bind_eq_ok_iff]
  constructor
  · rintro ⟨⟨target, scope⟩, hfollow, h⟩
    exact ⟨target, scope, hfollow, (hf target scope).mp h⟩
  · rintro ⟨target, scope, hfollow, hadmits⟩
    exact ⟨(target, scope), hfollow, (hf target scope).mpr hadmits⟩

theorem forall_mem_zipIdx_iff {α : Type} {P : α → Prop} {xs : List α} :
    (∀ e ∈ xs.zipIdx, P e.1) ↔ ∀ x ∈ xs, P x := by
  constructor
  · intro h x hx
    obtain ⟨i, hi⟩ := List.getElem?_of_mem hx
    exact h (x, i) (List.mem_zipIdx_iff_getElem?.mpr hi)
  · intro h e he
    exact h e.1 (List.fst_mem_of_mem_zipIdx he)

theorem allOf_eq_nil_iff :
    keywordViolations s depth "allOf" argument = .ok [] ↔
      ∀ way ∈ argument.items, s.Enters way s.subject := by
  refine flatten_mapM_eq_nil_iff.trans ?_
  refine Iff.trans ?_ forall_mem_zipIdx_iff
  exact forall₂_congr fun _ _ => enterAt_eq_nil_iff

/-- A choice is met if its first way is. -/
theorem anyOf_eq_nil_of_head {way : Located} {rest : List Located}
    (hitems : argument.items = way :: rest) (h : s.Enters way s.subject) :
    keywordViolations s depth "anyOf" argument = .ok [] := by
  have hfirst : ∃ more, firstMet s argument.items.zipIdx [] = .ok (some (way, more), []) := by
    rw [hitems, List.zipIdx_cons, firstMet, enterAt_eq_nil_iff.mpr h]
    exact ⟨_, rfl⟩
  obtain ⟨more, hmore⟩ := hfirst
  change (firstMet s argument.items.zipIdx [] >>= _) = _
  rw [hmore]
  rfl

theorem exists_of_firstMet {ways : List (Located × Nat)} {seen seen' : List Violation}
    {way : Located} {more : List Located}
    (h : firstMet s ways seen = .ok (some (way, more), seen')) :
    ∃ w ∈ ways, w.1 = way ∧ s.Enters way s.subject := by
  induction ways generalizing seen with
  | nil => cases h
  | cons w rest ih =>
    obtain ⟨vs, hvs, h⟩ := bind_eq_ok_iff.mp h
    split at h
    · next hempty =>
      cases h
      rw [List.isEmpty_iff.mp hempty] at hvs
      exact ⟨w, List.mem_cons_self, rfl, enterAt_eq_nil_iff.mp hvs⟩
    · obtain ⟨w', hw', hfound⟩ := ih h
      exact ⟨w', List.mem_cons_of_mem _ hw', hfound⟩

/-- Of a choice that is met, one way is. -/
theorem exists_of_oneOf (h : keywordViolations s depth "oneOf" argument = .ok []) :
    ∃ way ∈ argument.items, s.Enters way s.subject := by
  change (firstMet s argument.items.zipIdx [] >>= _) = _ at h
  obtain ⟨⟨found, seen⟩, hfound, h⟩ := bind_eq_ok_iff.mp h
  cases found with
  | none => cases h
  | some found =>
    obtain ⟨w, hw, hway, henters⟩ := exists_of_firstMet hfound
    exact ⟨w.1, List.fst_mem_of_mem_zipIdx hw, hway ▸ henters⟩

theorem properties_eq_nil_iff :
    keywordViolations s depth "properties" argument = .ok [] ↔
      ∀ entries, s.subject = .map entries → ∀ key inner, (key, inner) ∈ argument.entries →
        ∀ x, valueAt? key entries = some x → s.Enters inner x := by
  simp only [keywordViolations, applyKeyword]
  split
  · next entries hsubject =>
    refine flatten_mapM_eq_nil_iff.trans ⟨?_, fun h e he => ?_⟩
    · rintro h entries' heq key inner hinner x hx
      cases hsubject.symm.trans heq
      have hfound := h (key, inner) hinner
      simp only [hx] at hfound
      exact enterAt_eq_nil_iff.mp hfound
    · split
      · next x hx => exact enterAt_eq_nil_iff.mpr (h entries hsubject e.1 e.2 he x hx)
      · rfl
  · next hother => exact iff_of_true rfl fun entries heq => absurd heq (hother entries)

theorem propertyNames_eq_nil_iff :
    keywordViolations s depth "propertyNames" argument = .ok [] ↔
      ∀ entries, s.subject = .map entries → ∀ e ∈ entries, s.Enters argument e.1 := by
  simp only [keywordViolations, applyKeyword]
  split
  · next entries hsubject =>
    refine flatten_mapM_eq_nil_iff.trans ⟨?_, fun h e he => ?_⟩
    · rintro h entries' heq e he
      cases hsubject.symm.trans heq
      exact enterAt_eq_nil_iff.mp (h e he)
    · exact enterAt_eq_nil_iff.mpr (h entries hsubject e he)
  · next hother => exact iff_of_true rfl fun entries heq => absurd heq (hother entries)

/-- Further properties meet a schema for them. -/
theorem additionalProperties_eq_nil_iff (hmap : argument.value.isMap = true) :
    keywordViolations s depth "additionalProperties" argument = .ok [] ↔
      ∀ entries, s.subject = .map entries → ∃ extras,
        undeclared s.schema.value entries = .ok extras ∧ ∀ e ∈ extras, s.Enters argument e.2 := by
  obtain ⟨keywords, hkeywords⟩ := Value.isMap_iff.mp hmap
  simp only [keywordViolations, applyKeyword, hkeywords]
  split
  · next entries hsubject =>
    rw [bind_eq_ok_iff]
    constructor
    · rintro ⟨extras, hextras, h⟩ entries' heq
      cases hsubject.symm.trans heq
      exact ⟨extras, hextras, fun e he =>
        enterAt_eq_nil_iff.mp (flatten_mapM_eq_nil_iff.mp h e he)⟩
    · intro h
      obtain ⟨extras, hextras, henters⟩ := h entries hsubject
      exact ⟨extras, hextras,
        flatten_mapM_eq_nil_iff.mpr fun e he => enterAt_eq_nil_iff.mpr (henters e he)⟩
  · next hother => exact iff_of_true rfl fun entries heq => absurd heq (hother entries)

/-- There are no further properties where none are allowed. -/
theorem noAdditionalProperties_eq_nil_iff (hfalse : argument.value = .bool false) :
    keywordViolations s depth "additionalProperties" argument = .ok [] ↔
      ∀ entries, s.subject = .map entries → undeclared s.schema.value entries = .ok [] := by
  simp only [keywordViolations, applyKeyword, hfalse]
  split
  · next entries hsubject =>
    rw [bind_eq_ok_iff]
    constructor
    · rintro ⟨extras, hextras, h⟩ entries' heq
      cases hsubject.symm.trans heq
      rw [hextras]
      by_cases hempty : extras.isEmpty = true
      · rw [List.isEmpty_iff.mp hempty]
      · rw [if_neg (by simp [Value.isSet, Scalar.isSet, hempty])] at h
        split at h
        · cases h
        · cases h
    · intro h
      exact ⟨[], h entries hsubject, rfl⟩
  · next hother => exact iff_of_true rfl fun entries heq => absurd heq (hother entries)

theorem items_eq_nil_iff (hany : argument.value ≠ .bool false)
    (hfront : s.schema.value.get? "prefixItems" = none) :
    keywordViolations s depth "items" argument = .ok [] ↔
      ∀ items, s.subject = .list items → ∀ x ∈ items, s.Enters argument x := by
  simp only [keywordViolations, applyKeyword, hfront]
  split
  · next items hsubject =>
    have hitems : (∀ items', s.subject = .list items' → ∀ x ∈ items', s.Enters argument x) ↔
        ∀ x ∈ items, s.Enters argument x := by
      rw [hsubject]
      exact ⟨fun h => h items rfl, fun h items' heq => Value.list.inj heq ▸ h⟩
    rw [hitems]
    simp only [Option.getD_none, Value.items, List.length_nil, List.drop_zero]
    split
    · next hempty => exact iff_of_true rfl (by simp [List.isEmpty_iff.mp hempty])
    · refine flatten_mapM_eq_nil_iff.trans (Iff.trans ?_ forall_mem_zipIdx_iff)
      exact forall₂_congr fun _ _ => enterAt_eq_nil_iff
  · next hother => exact iff_of_true rfl fun items heq => absurd heq (hother items)

/-! ### Keywords that look at the value alone -/

theorem complaint_eq_nil_iff {keyword : String} (hother : applyKeyword s depth keyword argument = none) :
    keywordViolations s depth keyword argument = .ok [] ↔
      complaint? keyword argument.value s.subject = .ok none := by
  unfold keywordViolations
  rw [hother]
  dsimp only
  rw [bind_eq_ok_iff]
  constructor
  · rintro ⟨complaint, hcomplaint, h⟩
    cases complaint with
    | none => exact hcomplaint
    | some c => cases h
  · intro h
    exact ⟨none, h, rfl⟩

theorem complainUnless_eq_none_iff {holds : Bool} {text : Unit → String} :
    complainUnless holds text = none ↔ holds = true := by
  cases holds <;> simp [complainUnless]

theorem type_eq_nil_iff {name : String} {t : ValueType} (hname : argument.value = .str name)
    (ht : ValueType.ofText? name = some t) :
    keywordViolations s depth "type" argument = .ok [] ↔ t.holds s.subject = true := by
  rw [complaint_eq_nil_iff rfl, hname]
  have hholds : hasTypeOf [.str name] s.subject = .ok (t.holds s.subject) := by
    simp only [hasTypeOf, List.anyM, Value.text, Scalar.text, ht]
    cases t.holds s.subject <;> rfl
  simp only [complaint?, hholds]
  exact (Except.ok.injEq _ _).to_iff.trans complainUnless_eq_none_iff

theorem pattern_eq_nil_iff {text written : String} {p : Pattern} (hsubject : s.subject = .str text)
    (hwritten : argument.value = .str written) (hp : Pattern.parse? written = some p) :
    keywordViolations s depth "pattern" argument = .ok [] ↔ p.search text = true := by
  rw [complaint_eq_nil_iff rfl, hsubject, hwritten]
  have hpattern : patternOf written = .ok p := by
    rw [patternOf, hp]
  simp only [complaint?, Value.text, Scalar.text, hpattern]
  exact (Except.ok.injEq _ _).to_iff.trans complainUnless_eq_none_iff

theorem format_eq_nil_iff {text : String} (hsubject : s.subject = .str text) :
    keywordViolations s depth "format" argument = .ok [] ↔
      Format.accepts argument.value.text text = true := by
  rw [complaint_eq_nil_iff rfl, hsubject]
  simp only [complaint?]
  exact (Except.ok.injEq _ _).to_iff.trans complainUnless_eq_none_iff

end Site

end Schema

end BusinessModel
