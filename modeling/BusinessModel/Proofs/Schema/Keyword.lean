import BusinessModel.Proofs.Schema.Place
import BusinessModel.Proofs.Tree
import BusinessModel.Schema.Check

/-!
What a keyword reports: that the value violates the schema of the keyword, or what a schema that the
keyword applies reports of the value, of a part of it or of one of its names.
-/

namespace BusinessModel

namespace Schema

theorem mem_of_lookupScalar {key : Scalar} {entries : List (Value × Value)} {v : Value}
    (h : Value.lookupScalar key entries = some v) :
    ∃ k, (.scalar k, v) ∈ entries ∧ key.same k = true := by
  fun_induction Value.lookupScalar key entries with
  | case1 => cases h
  | case2 k w rest hsame =>
    cases h
    exact ⟨k, List.mem_cons_self, hsame⟩
  | case3 k w rest hsame ih =>
    obtain ⟨k', hmem, hk'⟩ := ih h
    exact ⟨k', List.mem_cons_of_mem _ hmem, hk'⟩
  | case4 e rest _ ih =>
    obtain ⟨k', hmem, hk'⟩ := ih h
    exact ⟨k', List.mem_cons_of_mem _ hmem, hk'⟩

/-- A scalar that counts as the same key as a text is that text. -/
theorem eq_of_same_str {key : Scalar} {name : String} (h : key.same (.str name) = true) :
    key = .str name := by
  cases key with
  | str s => rw [eq_of_beq h]
  | _ => simp [Scalar.same, Scalar.compareNumbers?, Scalar.asNumber] at h

/-- The value at a key of a tree is one step inside it. -/
theorem step_of_valueAt? {entries : List (Value × Value)} (h : Value.IsTree (.map entries))
    {key v : Value} (hv : valueAt? key entries = some v) :
    (Value.map entries).Step (stepAt key) v := by
  unfold valueAt? at hv
  split at hv
  · obtain ⟨k, hmem, hsame⟩ := mem_of_lookupScalar hv
    obtain ⟨name, hname⟩ := h.exists_key hmem
    cases hname
    rw [eq_of_same_str hsame]
    exact .entry hmem
  · cases hv

/-- An entry of a tree is one step inside it. -/
theorem step_of_mem {entries : List (Value × Value)} (h : Value.IsTree (.map entries))
    {key v : Value} (hv : (key, v) ∈ entries) : (Value.map entries).Step (stepAt key) v := by
  obtain ⟨name, rfl⟩ := h.exists_key hv
  exact .entry hv

theorem mem_of_mem_undeclared {schema : Value} {entries extras : List (Value × Value)}
    (h : undeclared schema entries = .ok extras) : ∀ e ∈ extras, e ∈ entries := by
  unfold undeclared at h
  dsimp only at h
  split at h
  all_goals
    obtain ⟨matching, _, h⟩ := bind_eq_ok_iff.mp h
    cases h
    exact fun e he => (List.mem_filter.mp he).1

@[simp] theorem Violation.within_none_none (v : Violation) : v.within none none = v := by
  cases v
  rfl

namespace Site

/-- A schema that a keyword may apply: its argument, a part of that, a branch of a condition, or what
a reference leads to. -/
inductive Holds (s : Site) (argument : Located) : Located → Prop where
  | argument : Holds s argument argument
  | item {schema : Located} (hitem : schema ∈ argument.items) : Holds s argument schema
  | entry {key : Value} {schema : Located} (hentry : (key, schema) ∈ argument.entries) :
      Holds s argument schema
  | branch {word : String} {schema : Located} (hbranch : s.schema.get? word = some schema) :
      Holds s argument schema
  | reference {scope : Scope} {schema : Located}
      (hfollow : follow s.registry s.scope argument.value.text = .ok (schema, scope)) :
      Holds s argument schema

/-- The step that the trail takes from a keyword other than `propertyNames` to a schema that it
applies. -/
inductive Leaves : String → Option String → Prop where
  /-- One schema is led to by the keyword alone. -/
  | one {keyword : String} (hslot : Slot.ofKeyword? keyword = some .schema)
      (hname : keyword ≠ "propertyNames") : Leaves keyword none
  /-- One of several schemas is led to by its name or position. -/
  | several {keyword : String} (hslot : Slot.ofKeyword? keyword = some .list ∨
      Slot.ofKeyword? keyword = some .table) (word : String) : Leaves keyword (some word)
  /-- A condition leads to one of its branches. -/
  | branch {word : String} (hword : word = "then" ∨ word = "else") : Leaves "if" (some word)
  | reference {keyword : String} (hkeyword : keyword = "$ref" ∨ keyword = "$dynamicRef") :
      Leaves keyword none

/-- A keyword applies a schema, by steps of the path and the trail if any. -/
inductive Applies (s : Site) (keyword : String) (argument : Located) :
    Option Segment → Option String → Located → Value → Prop where
  /-- To the value. -/
  | whole {word : Option String} {schema : Located} (hschema : s.Holds argument schema)
      (hword : Leaves keyword word) : Applies s keyword argument none word schema s.subject
  /-- To a part of the value. -/
  | part {step : Segment} {word : Option String} {schema : Located} {x : Value}
      (hschema : s.Holds argument schema) (hword : Leaves keyword word)
      (hstep : s.subject.Step step x) : Applies s keyword argument (some step) word schema x
  /-- To a name in the value. -/
  | name {entries : List (Value × Value)} {name : String} {x : Value}
      (hkeyword : keyword = "propertyNames") (hsubject : s.subject = .map entries)
      (hentry : (.str name, x) ∈ entries) : Applies s keyword argument none none argument (.str name)

theorem Applies.holds {s : Site} {keyword : String} {argument : Located} {step : Option Segment}
    {word : Option String} {schema : Located} {x : Value}
    (h : s.Applies keyword argument step word schema x) : s.Holds argument schema := by
  cases h with
  | whole hschema _ => exact hschema
  | part hschema _ _ => exact hschema
  | name _ _ _ => exact .argument

/-- What a schema that a keyword applies reports. Of one that allows nothing the steps to it are not
told. -/
inductive Passes (s : Site) (keyword : String) (argument : Located) : Violation → Prop where
  | forbidden {step : Option Segment} {word : Option String} {schema : Located} {x : Value}
      (happlies : s.Applies keyword argument step word schema x)
      (hfalse : schema.value = .bool false) : Passes s keyword argument (forbidden schema x)
  | inner {step : Option Segment} {word : Option String} {schema : Located} {x : Value}
      (happlies : s.Applies keyword argument step word schema x) {scope : Scope}
      {vs : List Violation} (hvs : s.apply scope schema x = .ok vs) {v : Violation} (hv : v ∈ vs) :
      Passes s keyword argument (v.within step word)

/-- The value violates the schema of the keyword itself. -/
structure Violates (s : Site) (keyword : String) (argument : Located) (v : Violation) : Prop where
  schema : v.schema = s.schema
  subject : v.subject = s.subject
  path : v.path = []
  trail : v.trail = []
  /-- What is reported of the ways of a choice comes with it. -/
  context : ∀ w ∈ v.context, s.Passes keyword argument w
  notName : keyword ≠ "propertyNames"
  required : v.keyword = some "required" → keyword = "required" ∧ v.argument = argument.value ∧
    ∃ entries names, s.subject = .map entries ∧ membersOf argument.value = .ok names ∧
      missingNames names entries ≠ []
  additional : v.keyword = some "additionalProperties" → s.subject.isMap = true

/-- What a keyword reports. -/
inductive Reports (s : Site) (keyword : String) (argument : Located) (v : Violation) : Prop where
  | own (h : s.Violates keyword argument v)
  | passed (h : s.Passes keyword argument v)

variable {s : Site} {keyword : String} {argument : Located}

/-- What an applied schema reports. -/
theorem enterAt_passes {step : Option Segment} {word : Option String} {schema : Located} {x : Value}
    (h : s.Applies keyword argument step word schema x) :
    Yields (s.Passes keyword argument) (s.enterAt step word schema x) := by
  unfold enterAt
  split
  · exact .nil
  · next hfalse => exact .singleton (.forbidden h hfalse)
  · next htrue hfalse =>
    refine .bind fun vs hvs => .ok fun v hv => ?_
    obtain ⟨w, hw, rfl⟩ := List.mem_map.mp hv
    unfold enter at hvs
    split at hvs
    · next heq => exact absurd heq htrue
    · next heq => exact absurd heq hfalse
    · obtain ⟨scope, _, hvs⟩ := bind_eq_ok_iff.mp hvs
      exact .inner h hvs hw

/-- What an applied schema reports is reported by the keyword. -/
theorem enterAt_reports {step : Option Segment} {word : Option String} {schema : Located} {x : Value}
    (h : s.Applies keyword argument step word schema x) :
    Yields (s.Reports keyword argument) (s.enterAt step word schema x) :=
  ⟨fun hvs v hv => .passed ((enterAt_passes h).of_mem hvs v hv)⟩

/-- What the schema at the end of a reference reports is reported by the keyword. -/
theorem reference_reports (hkeyword : keyword = "$ref" ∨ keyword = "$dynamicRef") :
    Yields (s.Reports keyword argument) (do
      let (target, scope) ← follow s.registry s.scope argument.value.text
      match target.value with
      | .bool true => return []
      | .bool false => return [forbidden target s.subject]
      | _ => s.apply scope target s.subject) := by
  refine .bind fun found hfound => ?_
  obtain ⟨target, scope⟩ := found
  have happlies : s.Applies keyword argument none none target s.subject :=
    .whole (.reference hfound) (.reference hkeyword)
  dsimp only
  split
  · exact .nil
  · next hfalse => exact .singleton (.passed (.forbidden happlies hfalse))
  · refine ⟨fun hvs v hv => .passed ?_⟩
    rw [← v.within_none_none]
    exact .inner happlies hvs hv

/-- What the ways of a choice report that are not met. -/
theorem firstMet_passes {ways : List (Located × Nat)}
    (hways : ∀ way ∈ ways, ∀ word,
      s.Applies keyword argument none (some word) way.1 s.subject)
    {seen : List Violation} (hseen : ∀ v ∈ seen, s.Passes keyword argument v)
    {found : Option (Located × List Located)} {seen' : List Violation}
    (hfound : firstMet s ways seen = .ok (found, seen')) :
    ∀ v ∈ seen', s.Passes keyword argument v := by
  induction ways generalizing seen with
  | nil =>
    cases hfound
    exact hseen
  | cons way rest ih =>
    obtain ⟨way, i⟩ := way
    obtain ⟨vs, hvs, hfound⟩ := bind_eq_ok_iff.mp hfound
    split at hfound
    · cases hfound
      exact hseen
    · refine ih (fun way hway => hways way (List.mem_cons_of_mem _ hway)) ?_ hfound
      intro v hv
      rcases List.mem_append.mp hv with hv | hv
      · exact hseen v hv
      · exact (enterAt_passes (hways _ List.mem_cons_self _)).of_mem hvs v hv

/-- A violation of the keyword itself that is neither of missing nor of further properties is
reported by it. -/
theorem reports_own {v : Violation} (hschema : v.schema = s.schema) (hsubject : v.subject = s.subject)
    (hpath : v.path = []) (htrail : v.trail = []) (hname : keyword ≠ "propertyNames")
    (hcontext : ∀ w ∈ v.context, s.Passes keyword argument w)
    (hrequired : v.keyword ≠ some "required")
    (hadditional : v.keyword ≠ some "additionalProperties") : s.Reports keyword argument v :=
  .own ⟨hschema, hsubject, hpath, htrail, hcontext, hname, fun h => absurd h hrequired,
    fun h => absurd h hadditional⟩

/-- A violation of the keyword itself, with which nothing else comes. -/
theorem reports_plain {v : Violation} (hschema : v.schema = s.schema)
    (hsubject : v.subject = s.subject) (hpath : v.path = []) (htrail : v.trail = [])
    (hname : keyword ≠ "propertyNames") (hcontext : v.context = [])
    (hrequired : v.keyword ≠ some "required")
    (hadditional : v.keyword ≠ some "additionalProperties") : s.Reports keyword argument v :=
  reports_own hschema hsubject hpath htrail hname (by simp [hcontext]) hrequired hadditional

theorem applies_listed (hslot : Slot.ofKeyword? keyword = some .list) (way : Located × Nat)
    (hway : way ∈ argument.items.zipIdx) (word : String) :
    s.Applies keyword argument none (some word) way.1 s.subject :=
  .whole (.item (List.fst_mem_of_mem_zipIdx hway)) (.several (.inl hslot) word)

/-! ### Keyword by keyword -/

variable {depth : Nat}

theorem reports_of_apply {result : Except Fault (List Violation)}
    (happly : applyKeyword s depth keyword argument = some result)
    (hresult : Yields (s.Reports keyword argument) result) :
    Yields (s.Reports keyword argument) (keywordViolations s depth keyword argument) := by
  rw [keywordViolations, happly]
  exact hresult

theorem allOf_reports :
    Yields (s.Reports "allOf" argument) (keywordViolations s depth "allOf" argument) := by
  refine reports_of_apply rfl ?_
  exact .flatten_mapM fun way hway => enterAt_reports (applies_listed rfl way hway _)

theorem anyOf_reports :
    Yields (s.Reports "anyOf" argument) (keywordViolations s depth "anyOf" argument) := by
  have hslot : Slot.ofKeyword? "anyOf" = some .list := rfl
  refine reports_of_apply rfl ?_
  refine .bind fun found hfound => ?_
  obtain ⟨met, seen⟩ := found
  have hseen := firstMet_passes (applies_listed hslot) (by simp) hfound
  cases met with
  | some _ => exact .nil
  | none => exact .singleton (reports_own rfl rfl rfl rfl (by decide) hseen (by simp) (by simp))

theorem oneOf_reports :
    Yields (s.Reports "oneOf" argument) (keywordViolations s depth "oneOf" argument) := by
  have hslot : Slot.ofKeyword? "oneOf" = some .list := rfl
  refine reports_of_apply rfl ?_
  refine .bind fun found hfound => ?_
  obtain ⟨met, seen⟩ := found
  have hseen := firstMet_passes (applies_listed hslot) (by simp) hfound
  cases met with
  | none => exact .singleton (reports_own rfl rfl rfl rfl (by decide) hseen (by simp) (by simp))
  | some way =>
    refine .bind fun more _ => ?_
    dsimp only
    split
    · exact .nil
    · exact .singleton (reports_plain rfl rfl rfl rfl (by decide) rfl (by simp) (by simp))

theorem not_reports :
    Yields (s.Reports "not" argument) (keywordViolations s depth "not" argument) := by
  refine reports_of_apply rfl ?_
  refine .bind fun met _ => ?_
  dsimp only
  split
  · exact .singleton (reports_plain rfl rfl rfl rfl (by decide) rfl (by simp) (by simp))
  · exact .nil

theorem if_reports :
    Yields (s.Reports "if" argument) (keywordViolations s depth "if" argument) := by
  refine reports_of_apply rfl ?_
  refine .bind fun met _ => ?_
  dsimp only
  cases hinner : s.schema.get? (if met = true then "then" else "else") with
  | some inner =>
    refine enterAt_reports (.whole (.branch hinner) (.branch ?_))
    cases met
    · exact .inr rfl
    · exact .inl rfl
  | none => exact .nil

theorem properties_reports (htree : s.subject.IsTree) :
    Yields (s.Reports "properties" argument) (keywordViolations s depth "properties" argument) := by
  refine reports_of_apply rfl ?_
  cases hsubject : s.subject with
  | map entries =>
    refine .flatten_mapM fun e he => ?_
    obtain ⟨key, inner⟩ := e
    dsimp only
    cases hvalue : valueAt? key entries with
    | some value =>
      refine enterAt_reports (.part (.entry he) (.several (.inr rfl) _) ?_)
      rw [hsubject]
      exact step_of_valueAt? (hsubject ▸ htree) hvalue
    | none => exact .nil
  | _ => exact .nil

theorem patternProperties_reports (htree : s.subject.IsTree) :
    Yields (s.Reports "patternProperties" argument)
      (keywordViolations s depth "patternProperties" argument) := by
  refine reports_of_apply rfl ?_
  cases hsubject : s.subject with
  | map entries =>
    refine .flatten_mapM fun e he => .bind fun p _ => .flatten_mapM fun e' he' => ?_
    obtain ⟨key, value⟩ := e'
    dsimp only
    split
    · refine enterAt_reports (.part (.entry he) (.several (.inr rfl) _) ?_)
      rw [hsubject]
      exact step_of_mem (hsubject ▸ htree) he'
    · exact .nil
  | _ => exact .nil

theorem propertyNames_reports (htree : s.subject.IsTree) :
    Yields (s.Reports "propertyNames" argument)
      (keywordViolations s depth "propertyNames" argument) := by
  refine reports_of_apply rfl ?_
  cases hsubject : s.subject with
  | map entries =>
    have hentries : Value.IsTree (.map entries) := hsubject ▸ htree
    refine .flatten_mapM fun e he => ?_
    obtain ⟨key, value⟩ := e
    obtain ⟨name, rfl⟩ := hentries.exists_key he
    exact enterAt_reports (.name rfl hsubject he)
  | _ => exact .nil

theorem additionalProperties_reports (htree : s.subject.IsTree) :
    Yields (s.Reports "additionalProperties" argument)
      (keywordViolations s depth "additionalProperties" argument) := by
  refine reports_of_apply rfl ?_
  cases hsubject : s.subject with
  | map entries =>
    refine .bind fun extras hextras => ?_
    dsimp only
    split
    · refine .flatten_mapM fun e he =>
        enterAt_reports (.part .argument (.one rfl (by decide)) ?_)
      rw [hsubject]
      exact step_of_mem (hsubject ▸ htree) (mem_of_mem_undeclared hextras e he)
    · have hclosed {v : Violation} (hkeyword : v.keyword = some "additionalProperties")
          (hschema : v.schema = s.schema) (hv : v.subject = .map entries) (hpath : v.path = [])
          (htrail : v.trail = []) (hcontext : v.context = []) :
          s.Reports "additionalProperties" argument v := by
        refine .own ⟨hschema, hv.trans hsubject.symm, hpath, htrail, by simp [hcontext],
          by decide, ?_, fun _ => ?_⟩
        · intro hrequired
          exact absurd (hkeyword.symm.trans hrequired) (by decide)
        · rw [hsubject]
          rfl
      split
      · exact .nil
      · split
        · exact .singleton (hclosed rfl rfl rfl rfl rfl rfl)
        · exact .singleton (hclosed rfl rfl rfl rfl rfl rfl)
  | _ => exact .nil

theorem required_reports :
    Yields (s.Reports "required" argument) (keywordViolations s depth "required" argument) := by
  refine reports_of_apply rfl ?_
  cases hsubject : s.subject with
  | map entries =>
    refine .bind fun names hnames => .ok fun v hv => ?_
    obtain ⟨name, hname, rfl⟩ := List.mem_map.mp hv
    exact .own ⟨rfl, hsubject.symm, rfl, rfl, by simp, by decide,
      fun _ => ⟨rfl, rfl, entries, names, hsubject, hnames, List.ne_nil_of_mem hname⟩, by simp⟩
  | _ => exact .nil

theorem dependentRequired_reports :
    Yields (s.Reports "dependentRequired" argument)
      (keywordViolations s depth "dependentRequired" argument) := by
  refine reports_of_apply rfl ?_
  cases hsubject : s.subject with
  | map entries =>
    refine .flatten_mapM fun e he => ?_
    dsimp only
    split
    · exact .nil
    · refine .bind fun names _ => .ok fun v hv => ?_
      obtain ⟨name, _, rfl⟩ := List.mem_map.mp hv
      exact reports_plain rfl hsubject.symm rfl rfl (by decide) rfl (by simp) (by simp)
  | _ => exact .nil

theorem dependentSchemas_reports :
    Yields (s.Reports "dependentSchemas" argument)
      (keywordViolations s depth "dependentSchemas" argument) := by
  refine reports_of_apply rfl ?_
  cases hsubject : s.subject with
  | map entries =>
    refine .flatten_mapM fun e he => ?_
    obtain ⟨key, inner⟩ := e
    dsimp only
    split
    · rw [← hsubject]
      exact enterAt_reports (.whole (.entry he) (.several (.inr rfl) _))
    · exact .nil
  | _ => exact .nil

theorem prefixItems_reports :
    Yields (s.Reports "prefixItems" argument) (keywordViolations s depth "prefixItems" argument) := by
  refine reports_of_apply rfl ?_
  cases hsubject : s.subject with
  | list vs =>
    refine .flatten_mapM fun e he => ?_
    obtain ⟨⟨value, inner⟩, i⟩ := e
    obtain ⟨hvalue, hinner⟩ :=
      List.getElem?_zip_eq_some.mp (List.mem_zipIdx_iff_getElem?.mp he)
    refine enterAt_reports
      (.part (.item (List.mem_of_getElem? hinner)) (.several (.inl rfl) _) ?_)
    rw [hsubject]
    exact .item hvalue
  | _ => exact .nil

theorem items_reports :
    Yields (s.Reports "items" argument) (keywordViolations s depth "items" argument) := by
  refine reports_of_apply rfl ?_
  cases hsubject : s.subject with
  | list vs =>
    dsimp only
    split
    · exact .nil
    · split
      · exact .singleton
          (reports_plain rfl hsubject.symm rfl rfl (by decide) rfl (by simp) (by simp))
      · refine .flatten_mapM fun e he =>
          enterAt_reports (.part .argument (.one rfl (by decide)) ?_)
        have hvalue := List.mem_zipIdx_iff_getElem?.mp he
        rw [List.getElem?_drop] at hvalue
        rw [hsubject]
        exact .item hvalue
  | _ => exact .nil

theorem contains_reports :
    Yields (s.Reports "contains" argument) (keywordViolations s depth "contains" argument) := by
  refine reports_of_apply rfl ?_
  cases hsubject : s.subject with
  | list vs =>
    have hsame := hsubject.symm
    refine .bind fun found _ => ?_
    dsimp only
    split
    · exact .singleton (reports_plain rfl hsame rfl rfl (by decide) rfl (by simp) (by simp))
    · split
      · split
        · exact .singleton (reports_plain rfl hsame rfl rfl (by decide) rfl (by simp) (by simp))
        · exact .singleton (reports_plain rfl hsame rfl rfl (by decide) rfl (by simp) (by simp))
      · exact .nil
  | _ => exact .nil

theorem unevaluatedItems_reports :
    Yields (s.Reports "unevaluatedItems" argument)
      (keywordViolations s depth "unevaluatedItems" argument) := by
  refine reports_of_apply rfl ?_
  cases hsubject : s.subject with
  | list vs =>
    refine .bind fun cared _ => ?_
    dsimp only
    split
    · exact .nil
    · exact .singleton
        (reports_plain rfl hsubject.symm rfl rfl (by decide) rfl (by simp) (by simp))
  | _ => exact .nil

theorem unevaluatedProperties_reports :
    Yields (s.Reports "unevaluatedProperties" argument)
      (keywordViolations s depth "unevaluatedProperties" argument) := by
  refine reports_of_apply rfl ?_
  cases hsubject : s.subject with
  | map entries =>
    have hsame := hsubject.symm
    refine .bind fun cared _ => .bind fun names _ => ?_
    dsimp only
    split
    · exact .nil
    · split
      · exact .singleton (reports_plain rfl hsame rfl rfl (by decide) rfl (by simp) (by simp))
      · exact .singleton (reports_plain rfl hsame rfl rfl (by decide) rfl (by simp) (by simp))
  | _ => exact .nil

/-- A keyword that looks at the value alone has at most one thing to say of it. -/
theorem complaint_reports (hnone : applyKeyword s depth keyword argument = none) :
    Yields (s.Reports keyword argument) (keywordViolations s depth keyword argument) := by
  have hother (word : String) (hword : ∀ s depth argument,
      (applyKeyword s depth word argument).isSome = true) : keyword ≠ word := by
    rintro rfl
    have hsome := hword s depth argument
    rw [hnone] at hsome
    cases hsome
  simp only [keywordViolations, hnone]
  refine .bind fun complaint _ => ?_
  split
  · refine .singleton (reports_plain rfl rfl rfl rfl (hother _ fun _ _ _ => rfl) rfl ?_ ?_)
    · exact fun h => absurd (Option.some.inj h) (hother _ fun _ _ _ => rfl)
    · exact fun h => absurd (Option.some.inj h) (hother _ fun _ _ _ => rfl)
  · exact .nil

/-- All that a keyword reports of a tree. -/
theorem keywordViolations_reports (htree : s.subject.IsTree) :
    Yields (s.Reports keyword argument) (keywordViolations s depth keyword argument) := by
  cases hresult : applyKeyword s depth keyword argument with
  | none => exact complaint_reports hresult
  | some result =>
    unfold applyKeyword at hresult
    dsimp only at hresult
    split at hresult
    case h_1 => exact reference_reports (.inl rfl)
    case h_2 => exact reference_reports (.inr rfl)
    case h_3 => exact allOf_reports
    case h_4 => exact anyOf_reports
    case h_5 => exact oneOf_reports
    case h_6 => exact not_reports
    case h_7 => exact if_reports
    case h_8 => exact properties_reports htree
    case h_9 => exact patternProperties_reports htree
    case h_10 => exact propertyNames_reports htree
    case h_11 => exact additionalProperties_reports htree
    case h_12 => exact required_reports
    case h_13 => exact dependentRequired_reports
    case h_14 => exact dependentSchemas_reports
    case h_15 => exact prefixItems_reports
    case h_16 => exact items_reports
    case h_17 => exact contains_reports
    case h_18 => exact unevaluatedItems_reports
    case h_19 => exact unevaluatedProperties_reports
    case h_20 => cases hresult

end Site

/-- A violation that a keyword reports, as seen from the schema of the keyword. -/
def Violation.under (keyword : String) (v : Violation) : Violation :=
  if isSilent keyword then v else v.within none (some keyword)

/-- What a schema reports of a tree is what its keywords report, unless it allows nothing. -/
theorem check_reports {r : Registry} {fuel : Nat} {scope : Scope} {schema : Located}
    {subject : Value} (htree : subject.IsTree) :
    Yields (fun v => schema.value = .bool false ∧ v = Site.forbidden schema subject ∨
        ∃ keyword argument w, (.str keyword, argument) ∈ schema.entries ∧
          (⟨r, scope, schema, subject, check r fuel⟩ : Site).Reports keyword argument w ∧
          v = w.under keyword)
      (check r (fuel + 1) scope schema subject) := by
  unfold check
  split
  · exact .nil
  · next hfalse => exact .singleton (.inl ⟨hfalse, rfl⟩)
  · refine .flatten_mapM fun e he => ?_
    obtain ⟨key, argument⟩ := e
    dsimp only
    split
    · next keyword =>
      refine .bind fun own hown => .ok fun v hv => ?_
      have hreports := (Site.keywordViolations_reports htree).of_mem hown
      obtain ⟨w, hw, rfl⟩ : ∃ w ∈ own, v = w.under keyword := by
        unfold Violation.under
        split at hv
        · next hsilent => exact ⟨v, hv, by rw [if_pos hsilent]⟩
        · next hsilent =>
          obtain ⟨w, hw, rfl⟩ := List.mem_map.mp hv
          exact ⟨w, hw, by rw [if_neg hsilent]⟩
      exact .inr ⟨keyword, argument, w, he, hreports w hw, rfl⟩
    · exact .nil
  · exact .error _

end Schema

end BusinessModel
