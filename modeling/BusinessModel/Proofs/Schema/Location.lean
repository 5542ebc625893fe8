import BusinessModel.Proofs.Schema.Finding

/-!
Where findings are. A violation is by the part of the content at its path, but one of a schema for names
is by a name in the mapping there, and one of a schema that allows nothing may be by a part one step
further inside.

A finding tells the place of its violation, and the name too for one by a name. These violations are
known by the word `propertyNames` on their trail, which may also be the name of a property; then the
text of a value is taken for a name.
-/

namespace BusinessModel

open Pointer

namespace Schema

/-- Whether a keyword holds several schemas, so that a name or a position stands behind it on a
trail. -/
def holdsSeveral (keyword : String) : Bool :=
  Slot.ofKeyword? keyword == some .list || Slot.ofKeyword? keyword == some .table

/-- Whether a trail leads through a schema for names: `propertyNames` stands on it as a keyword. The
first word is no keyword if it is free. -/
def throughNames (isFree : Bool) : List String → Bool
  | [] => false
  | word :: rest =>
    if isFree then throughNames false rest
    else word == "propertyNames" || throughNames (holdsSeveral word) rest

namespace Violation

/-- Whether the violation is of a schema for names. -/
def isOfName (v : Violation) : Bool := throughNames false v.trail

/-- Where a violation is in a value, as one of a schema for names or not. -/
inductive StandsAs (u : Value) (v : Violation) : Bool → Prop where
  /-- It is by a name in the mapping at its path. -/
  | name {entries : List (Value × Value)} {name : String} {x : Value}
      (hleads : u.Leads v.path (.map entries)) (hentry : (.str name, x) ∈ entries)
      (hsubject : v.subject = .str name) : StandsAs u v true
  /-- It is by the value at its path. -/
  | value (hleads : u.Leads v.path v.subject) : StandsAs u v false
  /-- A schema that allows nothing is violated by a part of the value at the path. -/
  | forbidden {parent : Value} {step : Segment} (hkeyword : v.keyword = none)
      (hleads : u.Leads v.path parent) (hstep : parent.Step step v.subject) : StandsAs u v false

/-- The violation is where its trail says. -/
def StandsIn (u : Value) (v : Violation) : Prop := v.StandsAs u v.isOfName

variable {u x : Value} {v : Violation} {isOfName : Bool}

theorem StandsAs.within_none (h : v.StandsAs u isOfName) (trail : Option String) :
    (v.within none trail).StandsAs u isOfName := by
  cases h with
  | name hleads hentry hsubject => exact .name hleads hentry hsubject
  | value hleads => exact .value hleads
  | forbidden hkeyword hleads hstep => exact .forbidden hkeyword hleads hstep

theorem StandsAs.within_some (h : v.StandsAs x isOfName) {s : Segment} (hstep : u.Step s x)
    (trail : Option String) : (v.within (some s) trail).StandsAs u isOfName := by
  cases h with
  | name hleads hentry hsubject => exact .name (.step hstep hleads) hentry hsubject
  | value hleads => exact .value (.step hstep hleads)
  | forbidden hkeyword hleads hinner => exact .forbidden hkeyword (.step hstep hleads) hinner

theorem StandsAs.under (h : v.StandsAs u isOfName) (keyword : String) :
    (v.under keyword).StandsAs u isOfName := by
  unfold Violation.under
  split
  · exact h
  · exact h.within_none _

/-- What is violated by a name itself is violated by the name of an entry. -/
theorem StandsAs.of_key {entries : List (Value × Value)} {name : String}
    (h : v.StandsAs (.str name) isOfName) (hentry : (.str name, x) ∈ entries) :
    v.StandsAs (.map entries) true := by
  cases h with
  | name hleads _ _ => cases hleads.eq_of_scalar
  | value hleads =>
    generalize hpath : v.path = path at hleads
    generalize hsubject : v.subject = subject at hleads
    cases hleads with
    | here _ => exact .name (hpath ▸ .here _) hentry hsubject
    | step hstep _ => cases hstep
  | forbidden _ hleads hstep =>
    rw [hleads.eq_of_scalar] at hstep
    cases hstep

end Violation

namespace Site

/-! ### The trail from a keyword -/

variable {s : Site} {keyword : String} {argument : Located} {v : Violation}

theorem Leaves.ne_propertyNames {word : Option String} (h : Leaves keyword word) :
    keyword ≠ "propertyNames" := by
  cases h with
  | one _ hname => exact hname
  | several hslot _ =>
    rintro rfl
    revert hslot
    decide
  | branch _ => decide
  | reference hkeyword =>
    rintro rfl
    revert hkeyword
    decide

/-- Without a further step a trail leads through a schema for names only by the keyword for them. -/
theorem isOfName_under_of_nil (hname : keyword ≠ "propertyNames") (htrail : v.trail = []) :
    (v.under keyword).isOfName = false := by
  unfold Violation.under
  split
  · rw [Violation.isOfName, htrail]
    rfl
  · simp [Violation.isOfName, Violation.within, htrail, throughNames, hname]

/-- The steps to a schema do not make a violation of it one of a schema for names. -/
theorem Leaves.isOfName_eq {word : Option String} (h : Leaves keyword word)
    (step : Option Segment) :
    ((v.within step word).under keyword).isOfName = v.isOfName := by
  have hname := h.ne_propertyNames
  cases h with
  | one hslot _ =>
    have hseveral : holdsSeveral keyword = false := by
      rw [holdsSeveral, hslot]
      rfl
    unfold Violation.under
    split
    · rfl
    · simp [Violation.isOfName, Violation.within, throughNames, hname, hseveral]
  | several hslot word =>
    have hseveral : holdsSeveral keyword = true := by simpa [holdsSeveral] using hslot
    have hsilent : isSilent keyword = false := by
      rw [Bool.eq_false_iff]
      intro hsilent
      have hmem : keyword ∈ ["if", "$ref", "$dynamicRef"] := List.contains_iff_mem.mp hsilent
      simp only [List.mem_cons, List.not_mem_nil, or_false] at hmem
      rcases hmem with rfl | rfl | rfl
      · cases hseveral
      · cases hseveral
      · cases hseveral
    rw [Violation.under, hsilent]
    simp [Violation.isOfName, Violation.within, throughNames, hname, hseveral]
  | branch hword =>
    rcases hword with rfl | rfl
    · rfl
    · rfl
  | reference hkeyword =>
    rcases hkeyword with rfl | rfl
    · rfl
    · rfl

/-- Whatever a schema for names reports is known by the trail. -/
theorem isOfName_under_propertyNames : (v.under "propertyNames").isOfName = true := rfl

/-! ### What keywords report -/

/-- What is reported by a keyword is where its trail says, if what applied schemas report is. -/
theorem Reports.standsIn (htree : s.subject.IsTree)
    (happly : ∀ scope schema x, x.IsTree →
      Yields (Violation.StandsIn x) (s.apply scope schema x))
    (h : s.Reports keyword argument v) : (v.under keyword).StandsIn s.subject := by
  unfold Violation.StandsIn
  cases h with
  | own h =>
    rw [isOfName_under_of_nil h.notName h.trail]
    exact Violation.StandsAs.under (.value (h.path ▸ h.subject ▸ .here _)) keyword
  | passed h =>
    cases h with
    | forbidden happlies hfalse =>
      cases happlies with
      | whole _ hword =>
        rw [isOfName_under_of_nil hword.ne_propertyNames rfl]
        exact Violation.StandsAs.under (.value (.here _)) keyword
      | part _ hword hstep =>
        rw [isOfName_under_of_nil hword.ne_propertyNames rfl]
        exact Violation.StandsAs.under (.forbidden rfl (.here _) hstep) keyword
      | name hkeyword hsubject hentry =>
        subst hkeyword
        rw [isOfName_under_propertyNames, hsubject]
        exact Violation.StandsAs.under (.name (.here _) hentry rfl) _
    | inner happlies hvs hv =>
      cases happlies with
      | whole _ hword =>
        rw [hword.isOfName_eq]
        exact (((happly _ _ _ htree).of_mem hvs _ hv).within_none _).under keyword
      | part _ hword hstep =>
        rw [hword.isOfName_eq]
        have hpart := htree.of_step hstep
        exact (((happly _ _ _ hpart).of_mem hvs _ hv).within_some hstep _).under keyword
      | name hkeyword hsubject hentry =>
        subst hkeyword
        rw [isOfName_under_propertyNames, hsubject]
        have hkey := ((happly _ _ _ (.scalar _)).of_mem hvs _ hv).of_key hentry
        exact (hkey.within_none none).under _

end Site

/-- All violations that a check reports are where their trails say. -/
theorem check_standsIn (r : Registry) (fuel : Nat) (scope : Scope) (schema : Located)
    {subject : Value} (htree : subject.IsTree) :
    Yields (Violation.StandsIn subject) (check r fuel scope schema subject) := by
  induction fuel generalizing scope schema subject with
  | zero => exact .error _
  | succ fuel ih =>
    refine ⟨fun hvs v hv => ?_⟩
    rcases (check_reports htree).of_mem hvs v hv with ⟨_, rfl⟩ | ⟨keyword, argument, w, _, hw, rfl⟩
    · exact .value (.here _)
    · exact hw.standsIn htree fun scope schema x hx => ih scope schema hx

end Schema

open Schema

namespace Finding

variable {u : Value} {v : Violation} {f : Finding}

/-- The place that a finding tells for a violation at a pointer. The word for names on its trail makes
a name of the violated value. -/
def placeTold (v : Violation) (pointer : String) : String :=
  if v.trail.contains "propertyNames" then join pointer (.key v.subject.text) else pointer

/-- Where a finding of a violation is in a value. -/
structure IsPlacedIn (f : Finding) (u : Value) (v : Violation) : Prop where
  /-- A missing property is at the mapping that lacks it. -/
  missing : f.keyword = "required" → u.PointsTo f.path f.data
  /-- An undeclared property is at the mapping that has it, and its value comes with it. -/
  undeclared : f.keyword = "additionalProperties" → ∃ entries key,
    f.params = [("additionalProperty", key)] ∧ u.PointsTo f.path (.map entries) ∧
      (key, f.data) ∈ entries
  /-- An invalid name is at its entry, and comes with it. -/
  name : v.isOfName = true → ∃ entries name x pointer, u.PointsTo pointer (.map entries) ∧
    (.str name, x) ∈ entries ∧ f.data = .str name ∧ f.path = join pointer (.key name) ∧
      u.PointsTo f.path x
  /-- Anything else is at the invalid value, which comes with it, -/
  value : isOther f.keyword = true → v.isOfName = false → v.keyword ≠ none →
    ∃ pointer, u.PointsTo pointer f.data ∧ f.path = placeTold v pointer
  /-- but not always if the schema allows nothing. -/
  forbidden : v.isOfName = false → v.keyword = none → ∃ pointer parent,
    u.PointsTo pointer parent ∧ (f.data = parent ∨ ∃ step, parent.Step step f.data) ∧
      f.path = placeTold v pointer

/-- A trail through a schema for names has the word for them. -/
theorem mem_of_throughNames {isFree : Bool} {trail : List String}
    (h : throughNames isFree trail = true) : "propertyNames" ∈ trail := by
  fun_induction throughNames isFree trail with
  | case1 => cases h
  | case2 word rest ih => exact List.mem_cons_of_mem _ (ih h)
  | case3 isFree word rest hfree ih =>
    rcases Bool.or_eq_true_iff.mp h with hword | hrest
    · rw [eq_of_beq hword]
      exact List.mem_cons_self
    · exact List.mem_cons_of_mem _ (ih hrest)

theorem mem_of_mem_undeclaredEntries {schema : Value} {entries extras : List (Value × Value)}
    (h : undeclaredEntries schema entries = .ok extras) : ∀ e ∈ extras, e ∈ entries := by
  obtain ⟨patterns, _, h⟩ := bind_eq_ok_iff.mp h
  cases h
  exact fun e he => (List.mem_filter.mp he).1

theorem ofOther_eq (hf : ofOther v = .ok f) : f.keyword = keywordText v ∧ f.data = v.subject ∧
    f.path = placeTold v (ofSegments v.path) := by
  obtain ⟨params, _, hf⟩ := bind_eq_ok_iff.mp hf
  cases hf
  exact ⟨rfl, rfl, rfl⟩

/-- Where properties are missing or undeclared, the violation is by the mapping at its path. -/
theorem leads_of_isMap (hv : v.StandsIn u) (hkeyword : v.keyword ≠ none)
    {entries : List (Value × Value)} (hmap : v.subject = .map entries) :
    v.isOfName = false ∧ u.Leads v.path (.map entries) := by
  unfold Violation.StandsIn at hv
  generalize v.isOfName = isOfName at hv
  cases hv with
  | name _ _ hsubject => cases hmap.symm.trans hsubject
  | value hleads => exact ⟨rfl, hmap ▸ hleads⟩
  | forbidden hnone _ _ => exact absurd hnone hkeyword

theorem isPlacedIn_missing (hv : v.StandsIn u) (hkeyword : v.keyword = some "required") {name : Value}
    (hname : name ∈ missingIn v) : (Finding.missing v name).IsPlacedIn u v := by
  obtain ⟨entries, hsubject⟩ : ∃ entries, v.subject = .map entries := by
    unfold missingIn at hname
    split at hname
    · exact ⟨_, ‹_›⟩
    · cases hname
  obtain ⟨hnone, hleads⟩ := leads_of_isMap hv (by simp [hkeyword]) hsubject
  refine ⟨fun _ => ?_, fun h => ?_, fun h => ?_, fun h => ?_, fun _ h => ?_⟩
  · exact (hsubject ▸ hleads).pointsTo
  · simp [Finding.missing] at h
  · simp [hnone] at h
  · simp [Finding.missing, isOther] at h
  · simp [hkeyword] at h

theorem isPlacedIn_undeclared (hv : v.StandsIn u) (hkeyword : v.keyword = some "additionalProperties")
    (hmap : v.subject.isMap = true) {extras : List (Value × Value)}
    (hextras : undeclaredEntries v.schema.value v.subject.entries = .ok extras) {e : Value × Value}
    (he : e ∈ extras) : (Finding.undeclared v e).IsPlacedIn u v := by
  obtain ⟨entries, hsubject⟩ := Value.isMap_iff.mp hmap
  obtain ⟨hnone, hleads⟩ := leads_of_isMap hv (by simp [hkeyword]) hsubject
  refine ⟨fun h => ?_, fun _ => ?_, fun h => ?_, fun h => ?_, fun _ h => ?_⟩
  · simp [Finding.undeclared] at h
  · rw [hsubject] at hextras
    exact ⟨entries, _, rfl, hleads.pointsTo, mem_of_mem_undeclaredEntries hextras _ he⟩
  · simp [hnone] at h
  · simp [Finding.undeclared, isOther] at h
  · simp [hkeyword] at h

theorem isPlacedIn_other (hv : v.StandsIn u) (hrequired : v.keyword ≠ some "required")
    (hadditional : v.keyword ≠ some "additionalProperties") (hf : ofOther v = .ok f) :
    f.IsPlacedIn u v := by
  obtain ⟨hkeyword, hdata, hpath⟩ := ofOther_eq hf
  refine ⟨fun h => ?_, fun h => ?_, fun h => ?_, fun _ h hsome => ?_, fun h hnone => ?_⟩
  · exact absurd (hkeyword ▸ h) (keywordText_ne hrequired (by decide))
  · exact absurd (hkeyword ▸ h) (keywordText_ne hadditional (by decide))
  · have hword : v.trail.contains "propertyNames" = true :=
      List.contains_iff_mem.mpr (mem_of_throughNames h)
    rw [Violation.StandsIn, h] at hv
    cases hv with
    | @name entries name x hleads hentry hsubject =>
      have hentryPath : f.path = join (ofSegments v.path) (.key name) := by
        rw [hpath, placeTold, if_pos hword, hsubject]
        rfl
      refine ⟨entries, name, x, _, hleads.pointsTo, hentry, hdata.trans hsubject, hentryPath, ?_⟩
      rw [hentryPath, join_ofSegments]
      exact (hleads.concat (.entry hentry)).pointsTo
  · rw [Violation.StandsIn, h] at hv
    rw [hdata, hpath]
    cases hv with
    | value hleads => exact ⟨_, hleads.pointsTo, rfl⟩
    | forbidden hnone _ _ => exact absurd hnone hsome
  · rw [Violation.StandsIn, h] at hv
    rw [hdata, hpath]
    cases hv with
    | value hleads => exact ⟨_, _, hleads.pointsTo, .inl rfl, rfl⟩
    | forbidden _ hleads hstep => exact ⟨_, _, hleads.pointsTo, .inr ⟨_, hstep⟩, rfl⟩

/-- A finding of a violation is where that is. -/
theorem IsAbout.isPlacedIn (h : IsAbout f v) (hv : v.StandsIn u)
    (hmap : v.keyword = some "additionalProperties" → v.subject.isMap = true) : f.IsPlacedIn u v := by
  cases h with
  | missing hkeyword hname => exact isPlacedIn_missing hv hkeyword hname
  | undeclared hkeyword hextras he =>
    exact isPlacedIn_undeclared hv hkeyword (hmap hkeyword) hextras he
  | other hrequired hadditional hf => exact isPlacedIn_other hv hrequired hadditional hf

/-- What is reported of a violation is about it. -/
theorem isAbout_of_ofViolation {seen seen' : List (String × Place)} {found : List Finding}
    (hmap : v.keyword = some "additionalProperties" → v.subject.isMap = true)
    (h : ofViolation v seen = .ok (found, seen')) : ∀ f ∈ found, IsAbout f v := by
  intro f hf
  unfold ofViolation at h
  dsimp only at h
  split at h
  · next hkeyword =>
    split at h
    · cases h
      cases hf
    · cases h
      obtain ⟨name, hname, rfl⟩ := List.mem_map.mp hf
      exact .missing hkeyword hname
  · next entries hkeyword hsubject =>
    obtain ⟨found, hfound, h⟩ := bind_eq_ok_iff.mp h
    cases h
    obtain ⟨extras, hextras, hfound⟩ := bind_eq_ok_iff.mp hfound
    cases hfound
    obtain ⟨e, he, rfl⟩ := List.mem_map.mp hf
    exact .undeclared hkeyword (hsubject ▸ hextras) he
  · next hrequired hadditional =>
    obtain ⟨other, hother, h⟩ := bind_eq_ok_iff.mp h
    cases h
    rw [List.mem_singleton.mp hf]
    refine .other hrequired (fun hkeyword => ?_) hother
    · obtain ⟨entries, hsubject⟩ := Value.isMap_iff.mp (hmap hkeyword)
      exact hadditional _ hkeyword hsubject

/-- Whatever is reported of violations is about one of them. -/
theorem exists_isAbout {vs : List Violation} {seen : List (String × Place)} {fs : List Finding}
    (hmap : ∀ v ∈ vs, v.keyword = some "additionalProperties" → v.subject.isMap = true)
    (h : ofViolationsFrom vs seen = .ok fs) : ∀ f ∈ fs, ∃ v ∈ vs, IsAbout f v := by
  induction vs generalizing seen fs with
  | nil =>
    cases h
    simp
  | cons v rest ih =>
    obtain ⟨⟨found, seen'⟩, hfound, h⟩ := bind_eq_ok_iff.mp h
    obtain ⟨more, hmore, hfs⟩ : ∃ more, ofViolationsFrom rest seen' = .ok more ∧
        found ++ more = fs := by
      dsimp only at h
      split at h
      · cases h
      · obtain ⟨more, hmore, h⟩ := bind_eq_ok_iff.mp h
        cases h
        exact ⟨more, hmore, rfl⟩
    intro f hf
    rw [← hfs, List.mem_append] at hf
    rcases hf with hf | hf
    · exact ⟨v, List.mem_cons_self,
        isAbout_of_ofViolation (hmap v List.mem_cons_self) hfound f hf⟩
    · obtain ⟨w, hw, habout⟩ := ih (fun w hw => hmap w (List.mem_cons_of_mem _ hw)) hmore f hf
      exact ⟨w, List.mem_cons_of_mem _ hw, habout⟩

end Finding

namespace SchemaSet

/-- Every finding in content is about a violation, and where that is. A violation by a name is at the
entry of the name; another one is at the value, unless the schema allows nothing, or `propertyNames` is
the name of a property on the way to it. -/
theorem findings_placed_in_content {source : String} {index definitions : Value}
    {documents : List (String × Value)} {s : SchemaSet}
    (hset : ofSchemas source index definitions documents = .ok s) (type : Option String)
    (content : Content) {fs : List Finding} (hfs : s.findings type content.toValue = .ok fs) :
    ∃ vs, s.violations type content.toValue = .ok vs ∧ ∀ f ∈ fs, ∃ v ∈ vs, f.IsAbout v ∧
      f.IsPlacedIn content.toValue v := by
  rw [findings_eq] at hfs
  obtain ⟨vs, hvs, hfs⟩ := bind_eq_ok_iff.mp hfs
  obtain ⟨found, hfound, hfs⟩ := bind_eq_ok_iff.mp (mapError_eq_ok_iff.mp hfs)
  cases hfs
  obtain ⟨schemas, hregistry, hdocument⟩ := exists_schemas hset
  obtain ⟨schema, hschema, hchecked⟩ := bind_eq_ok_iff.mp hvs
  have hschema := hdocument type schema (mapError_eq_ok_iff.mp hschema)
  obtain ⟨base, _, hchecked⟩ := bind_eq_ok_iff.mp (mapError_eq_ok_iff.mp hchecked)
  have htree := content.isTree_toValue
  have harises := (check_isSound hregistry checkDepth _ _ _ hschema htree).of_mem hchecked
  have hstands := (check_standsIn _ _ _ _ htree).of_mem hchecked
  refine ⟨vs, hvs, fun f hf => ?_⟩
  obtain ⟨v, hv, habout⟩ := Finding.exists_isAbout (fun v hv => (harises v hv).additional) hfound f
    (List.mem_mergeSort.mp hf)
  exact ⟨v, hv, habout, habout.isPlacedIn (hstands v hv) (harises v hv).additional⟩

/-! ### A property named for its names -/

/-- A document schema with a property that has the name of a keyword, one that is not allowed, and one
whose names have a pattern. -/
def namesDocument : Value :=
  .object [("$id", "t"), ("properties", .object
    [("propertyNames", .object [("type", "string")]), ("none", false),
     ("names", .object [("propertyNames", .object [("pattern", "^a$")])])])]

/-- The set of that document schema. -/
def namesSample : Except SchemaSetError SchemaSet :=
  ofSchemas "" (.object [("$id", "i")]) (.object [("$id", "d")]) [("t", namesDocument)]

/-- The schemas of the set by their addresses. -/
def namesSchemas : List (String × Value) :=
  [("i", .object [("$id", "i")]), ("d", .object [("$id", "d")]), ("t", namesDocument)]

/-- The set with metadata. -/
def namesSet (m : Metadata) : SchemaSet :=
  ⟨"", .object [("$id", "i")], .object [("$id", "d")], [("t", namesDocument)],
    .ofSchemas (namesSchemas ++ Metaschema.schemas), m⟩

theorem namesSchemas_test : (namesSchemas.all (fun e => Metaschema.isSimple 4 e.2 &&
      (e.2.get? "$id").bind Value.str? == some e.1 && !e.1.isEmpty) &&
    (Metadata.ofSchemas (.object [("$id", "i")]) (.object [("$id", "d")]) [("t", namesDocument)]
      (.ofSchemas namesSchemas)).toOption.isSome) = true := by
  decide +kernel

/-- The set is built, and what is reported of content does not depend on its metadata. -/
theorem exists_namesSample : ∃ s, namesSample = .ok s ∧
    s.violations = (namesSet {}).violations ∧ s.findings = (namesSet {}).findings := by
  obtain ⟨hsimple, hmetadata⟩ := Bool.and_eq_true_iff.mp namesSchemas_test
  have hsame : (labelled (.object [("$id", "i")]) (.object [("$id", "d")])
      [("t", namesDocument)]).map (·.2) = namesSchemas.map (·.2) := by
    simp [labelled, namesSchemas]
  obtain ⟨m, hm⟩ := exists_ofSchemas_of_isSimple hsame hsimple (by decide)
    (by simp [namesSchemas]) hmetadata
  exact ⟨namesSet m, hm "", rfl, rfl⟩

/-- Content with one number in it. -/
def numberAt (property : String) : Content := .mapping [(property, .scalar (.int 5))]

/-- Content with a number whose name is invalid. -/
def numberNamed (name : String) : Content := .mapping [("names", numberAt name)]

/-- Whether there is one finding, with a place and the scalar that it is about. -/
def isOneAt (path : String) (x : Scalar) (fs : List Finding) : Bool :=
  match fs with
  | [f] => f.path == path && match f.data with
    | .scalar y => x == y
    | _ => false
  | _ => false

theorem exists_of_isOneAt {path : String} {x : Scalar} {r : Except CheckError (List Finding)}
    (h : r.toOption.any (isOneAt path x) = true) :
    ∃ f, r = .ok [f] ∧ f.path = path ∧ f.data = .scalar x := by
  obtain ⟨fs, hfs, h⟩ := exists_of_any_toOption h
  unfold isOneAt at h
  split at h
  · next f =>
    obtain ⟨hpath, h⟩ := Bool.and_eq_true_iff.mp h
    split at h
    · next y hdata => exact ⟨f, hfs, eq_of_beq hpath, (eq_of_beq h) ▸ hdata⟩
    · cases h
  · cases h

theorem names_test : (fun s : SchemaSet =>
    (s.findings (some "t") (numberAt "propertyNames").toValue).toOption.any
      (isOneAt "/propertyNames/5" (.int 5)) &&
    (s.findings (some "t") (numberAt "none").toValue).toOption.any (isOneAt "" (.int 5)) &&
    (s.findings (some "t") (numberNamed "b").toValue).toOption.any
      (isOneAt "/names/b" (.str "b"))) (namesSet {}) = true := by
  decide +kernel

/-- The finding for an invalid name is at the entry of the name. -/
theorem findings_placed_at_name : ∃ s vs f v, namesSample = .ok s ∧
    s.violations (some "t") (numberNamed "b").toValue = .ok vs ∧
    s.findings (some "t") (numberNamed "b").toValue = .ok [f] ∧ f.path = "/names/b" ∧
    f.data = .str "b" ∧ v ∈ vs ∧ f.IsAbout v ∧ f.IsPlacedIn (numberNamed "b").toValue v := by
  obtain ⟨s, hset, -, hfindings⟩ := exists_namesSample
  have htest := names_test
  simp only [← hfindings, Bool.and_eq_true] at htest
  obtain ⟨f, hf, hpath, hdata⟩ := exists_of_isOneAt htest.2
  obtain ⟨vs, hvs, hplaced⟩ := findings_placed_in_content hset (some "t") (numberNamed "b") hf
  obtain ⟨v, hv, habout, hplace⟩ := hplaced f List.mem_cons_self
  exact ⟨s, vs, f, v, hset, hvs, hf, hpath, hdata, hv, habout, hplace⟩

/-- A pointer into a mapping of one scalar leads to the mapping or the scalar. -/
theorem eq_of_pointsTo_numberAt {property pointer : String} {x : Value}
    (h : (numberAt property).toValue.PointsTo pointer x) :
    pointer = "" ∧ x = (numberAt property).toValue ∨
      pointer = "/" ++ escape property ∧ x = .int 5 := by
  obtain ⟨path, hleads, rfl⟩ := h
  cases hleads with
  | here _ => exact .inl ⟨ofSegments_nil, rfl⟩
  | step hstep tail =>
    cases hstep with
    | entry hentry =>
      obtain ⟨hkey, rfl⟩ := Prod.mk.inj (List.mem_singleton.mp hentry)
      cases hkey
      cases tail with
      | here _ => exact .inr ⟨by rw [ofSegments_cons, ofSegments_nil, String.append_empty]; rfl, rfl⟩
      | step hstep _ => cases hstep

/-- The value of a property with the name of the keyword for names is taken for a name, and the finding
is at no place of the content. A value that no schema allows is reported at the mapping around it. -/
theorem findings_placed_beside_values : ∃ s, namesSample = .ok s ∧
    (∃ f, s.findings (some "t") (numberAt "propertyNames").toValue = .ok [f] ∧
      f.path = "/propertyNames/5" ∧ f.data = .int 5 ∧
      ∀ x, ¬ (numberAt "propertyNames").toValue.PointsTo f.path x) ∧
    ∃ f, s.findings (some "t") (numberAt "none").toValue = .ok [f] ∧ f.path = "" ∧
      f.data = .int 5 ∧ ¬ (numberAt "none").toValue.PointsTo f.path f.data := by
  obtain ⟨s, hset, -, hfindings⟩ := exists_namesSample
  have htest := names_test
  simp only [← hfindings, Bool.and_eq_true] at htest
  obtain ⟨f, hf, hpath, hdata⟩ := exists_of_isOneAt htest.1.1
  obtain ⟨g, hg, hgpath, hgdata⟩ := exists_of_isOneAt htest.1.2
  refine ⟨s, hset, ⟨f, hf, hpath, hdata, fun x hx => ?_⟩, g, hg, hgpath, hgdata, fun hx => ?_⟩
  · rw [hpath] at hx
    rcases eq_of_pointsTo_numberAt hx with ⟨h, _⟩ | ⟨h, _⟩
    · exact absurd h (by decide)
    · exact absurd h (by decide)
  · rw [hgpath, hgdata] at hx
    rcases eq_of_pointsTo_numberAt hx with ⟨_, h⟩ | ⟨h, _⟩
    · cases h
    · exact absurd h (by decide)

end SchemaSet

end BusinessModel
