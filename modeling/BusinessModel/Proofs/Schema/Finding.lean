import BusinessModel.Proofs.Schema.Engine
import BusinessModel.Proofs.Schema.Simple
import BusinessModel.Schema.Finding
import Mathlib.Data.String.Basic

/-!
Findings against violations. A required property that is missing is reported once for each place and
schema, however many violations there are of it; every undeclared property is reported for each
violation; and every other violation is reported once.
-/

namespace BusinessModel

open Schema

/-! ### The relevance of violations -/

theorem exists_rated {vs : List Violation} (h : ∀ v ∈ vs, v.Rateable) :
    ∃ rated, Violation.rated vs = .ok rated ∧ ∀ r ∈ rated, r.1 ∈ vs := by
  have hall : ∀ v ∈ vs, ∃ r : Violation × Violation.Relevance,
      (do return (v, ← v.relevance) : Except Fault _) = .ok r := by
    intro v hv
    obtain ⟨b, hb⟩ := (h v hv).fits
    exact ⟨_, by rw [Violation.relevance, hb]; rfl⟩
  obtain ⟨rated, hrated⟩ := exists_forall₂ hall
  have hrated := mapM_eq_ok_iff.mpr hrated
  refine ⟨rated, hrated, fun r hr => ?_⟩
  obtain ⟨v, hv, hvr⟩ := exists_of_mem_mapM hrated hr
  obtain ⟨relevance, _, hr⟩ := bind_eq_ok_iff.mp hvr
  cases hr
  exact hv

theorem mem_of_mostRelevant {vs : List (Violation × Violation.Relevance)}
    {v : Violation × Violation.Relevance} (h : Violation.mostRelevant vs = some v) : v ∈ vs := by
  unfold Violation.mostRelevant at h
  split at h
  · cases h
  · cases h
    refine foldl_choice_mem (fun a b => ?_) _ _
    split
    · exact Or.inr rfl
    · exact Or.inl rfl

theorem mem_of_leastRelevant? {vs : List (Violation × Violation.Relevance)} {v : Violation}
    (h : Violation.leastRelevant? vs = some v) : ∃ r, (v, r) ∈ vs := by
  unfold Violation.leastRelevant? at h
  split at h
  · cases h
  · extract_lets least equals at h
    split at h
    · cases h
    · cases h
      refine ⟨least.2, foldl_choice_mem (fun a b => ?_) _ _⟩
      split
      · exact Or.inr rfl
      · exact Or.inl rfl

/-- The descent into a choice ends at a violation. -/
theorem exists_descendTo (fuel : Nat) {v : Violation} (h : v.Rateable) :
    ∃ w, Violation.descendTo fuel v = .ok w := by
  induction fuel generalizing v with
  | zero => exact ⟨v, rfl⟩
  | succ fuel ih =>
    rw [Violation.descendTo]
    split
    · exact ⟨v, rfl⟩
    · obtain ⟨rated, hrated, hmem⟩ := exists_rated fun w hw => h.of_mem_context hw
      rw [hrated]
      simp only [bind, Except.bind]
      split
      · next inner hinner =>
        obtain ⟨r, hr⟩ := mem_of_leastRelevant? hinner
        exact ih (h.of_mem_context (hmem _ hr))
      · exact ⟨v, rfl⟩

/-- There is a violation that tells the most, or none at all. -/
theorem exists_best? {vs : List Violation} (h : ∀ v ∈ vs, v.Rateable) :
    ∃ best, Violation.best? vs = .ok best := by
  obtain ⟨rated, hrated, hmem⟩ := exists_rated h
  rw [Violation.best?, hrated]
  simp only [bind, Except.bind]
  split
  · next v r hmost =>
    obtain ⟨w, hw⟩ := exists_descendTo v.depth (h v (hmem _ (mem_of_mostRelevant hmost)))
    rw [hw]
    exact ⟨some w, rfl⟩
  · exact ⟨none, rfl⟩

namespace Finding

/-! ### What is reported of one violation -/

/-- The violation can be reported as it is meant. -/
structure IsReportable (v : Violation) : Prop where
  /-- The keywords of the violated schema are texts, and each stands there once. -/
  named : ∃ names : List String, v.schema.value.entries.map (·.1) = names.map .str ∧ names.Nodup
  /-- Properties are required by a list, and none that is missing is named twice. -/
  listed : v.keyword = some "required" →
    ∃ names, v.argument = .list names ∧ (missingIn v).Nodup
  /-- Where properties are said to be undeclared, some are. -/
  undeclared : v.keyword = some "additionalProperties" →
    ∃ extras, undeclaredEntries v.schema.value v.subject.entries = .ok extras ∧ extras ≠ []

/-- Only what a list requires is reported as missing. -/
theorem exists_of_missingIn_ne_nil {v : Violation} (h : missingIn v ≠ []) :
    ∃ names, v.argument = .list names := by
  cases hargument : v.argument with
  | list names => exact ⟨names, rfl⟩
  | scalar x =>
    refine absurd ?_ h
    unfold missingIn
    rw [hargument]
    split <;> rfl
  | map entries =>
    refine absurd ?_ h
    unfold missingIn
    rw [hargument]
    split <;> rfl

/-- A test of whether a violation can be reported as it is meant, for names that are texts. -/
def isReportable (v : Violation) : Bool :=
  areDistinctTexts (v.schema.value.entries.map (·.1)) &&
  (v.keyword != some "required" || !(missingIn v).isEmpty && areDistinctTexts (missingIn v)) &&
  (v.keyword != some "additionalProperties" ||
    (undeclaredEntries v.schema.value v.subject.entries).toOption.any (!·.isEmpty))

theorem IsReportable.of_test {v : Violation} (h : isReportable v = true) : IsReportable v := by
  simp only [isReportable, Bool.and_eq_true, Bool.or_eq_true, bne_iff_ne, ne_eq] at h
  obtain ⟨⟨hnamed, hlisted⟩, hundeclared⟩ := h
  refine ⟨exists_of_areDistinctTexts hnamed, fun hkeyword => ?_, fun hkeyword => ?_⟩
  · obtain ⟨hsome, hdistinct⟩ := hlisted.resolve_left fun hne => hne hkeyword
    obtain ⟨names, hnames⟩ := exists_of_missingIn_ne_nil (v := v) (by simpa using hsome)
    obtain ⟨texts, htexts, hnodup⟩ := exists_of_areDistinctTexts hdistinct
    refine ⟨names, hnames, ?_⟩
    rw [htexts]
    exact hnodup.map fun a b hab => by simpa using hab
  · obtain ⟨extras, hextras, hsome⟩ :=
      exists_of_any_toOption (hundeclared.resolve_left fun hne => hne hkeyword)
    refine ⟨extras, hextras, ?_⟩
    rintro rfl
    cases hsome

/-- The finding is about the violation. -/
inductive IsAbout : Finding → Violation → Prop where
  | missing {v : Violation} {name : Value} (hkeyword : v.keyword = some "required")
      (hname : name ∈ missingIn v) : IsAbout (missing v name) v
  | undeclared {v : Violation} {extras : List (Value × Value)} {e : Value × Value}
      (hkeyword : v.keyword = some "additionalProperties")
      (hextras : undeclaredEntries v.schema.value v.subject.entries = .ok extras)
      (he : e ∈ extras) : IsAbout (undeclared v e) v
  | other {v : Violation} {f : Finding} (hrequired : v.keyword ≠ some "required")
      (hadditional : v.keyword ≠ some "additionalProperties") (hf : ofOther v = .ok f) :
      IsAbout f v

variable {schemas : List Value} {subject : Value} {v : Violation}

theorem exists_paramsOf (h : v.Rateable) (keyword : String) :
    ∃ params, paramsOf keyword v = .ok params := by
  obtain ⟨best, hbest⟩ := exists_best? fun w hw => h.of_mem_context hw
  unfold paramsOf
  split
  all_goals first
    | exact ⟨_, rfl⟩
    | rw [hbest]
      exact ⟨_, rfl⟩

/-- The finding for a violation of any other keyword names that keyword. -/
theorem exists_ofOther (h : v.Rateable) :
    ∃ f, ofOther v = .ok f ∧ f.keyword = keywordText v ∧ f.schema = schemaOf v := by
  obtain ⟨params, hparams⟩ := exists_paramsOf h (keywordText v)
  exact ⟨_, bind_eq_ok_iff.mpr ⟨params, hparams, rfl⟩, rfl, rfl⟩

theorem isNamed_of_schema (h : IsReportable v) {f : Finding} (hf : f.schema = schemaOf v) :
    f.isNamed = true := by
  obtain ⟨names, hnames, _⟩ := h.named
  rw [isNamed, hf, schemaOf, List.all_eq_true]
  intro e he
  split at he
  · have hkey : e.1 ∈ v.schema.value.entries.map (·.1) := List.mem_map_of_mem he
    rw [hnames] at hkey
    obtain ⟨name, _, hname⟩ := List.mem_map.mp hkey
    obtain ⟨key, value⟩ := e
    cases hname
    rfl
  · cases he

/-- The keyword that a finding for another violation names is neither of the two. -/
theorem keywordText_ne {keyword : String} (hkeyword : v.keyword ≠ some keyword)
    (hnone : keyword ≠ "None") : keywordText v ≠ keyword := by
  unfold keywordText
  cases hv : v.keyword with
  | none => exact fun h => hnone h.symm
  | some k =>
    intro h
    rw [hv] at hkeyword
    exact hkeyword (congrArg some h)

/-! ### What is reported of several violations -/

/-- Where a violation is: the pointer to the value, and the place of the schema. -/
def siteOf (v : Violation) : String × Place := (Pointer.ofSegments v.path, v.schema.place)

/-- The findings for each of several violations in turn. Those for missing properties are reported
with the first violation at a site that is not among those already seen. -/
inductive Converts : List Violation → List (String × Place) → List (List Finding) → Prop where
  | nil {seen : List (String × Place)} : Converts [] seen []
  | first {v : Violation} {rest : List Violation} {seen : List (String × Place)}
      {lists : List (List Finding)} (hkeyword : v.keyword = some "required")
      (hnew : siteOf v ∉ seen) (tail : Converts rest (siteOf v :: seen) lists) :
      Converts (v :: rest) seen (ofMissing v :: lists)
  | again {v : Violation} {rest : List Violation} {seen : List (String × Place)}
      {lists : List (List Finding)} (hkeyword : v.keyword = some "required")
      (hseen : siteOf v ∈ seen) (tail : Converts rest seen lists) :
      Converts (v :: rest) seen ([] :: lists)
  | closed {v : Violation} {rest : List Violation} {seen : List (String × Place)}
      {lists : List (List Finding)} {extras : List (Value × Value)}
      (hkeyword : v.keyword = some "additionalProperties")
      (hextras : undeclaredEntries v.schema.value v.subject.entries = .ok extras)
      (hsome : extras ≠ []) (tail : Converts rest seen lists) :
      Converts (v :: rest) seen (extras.map (undeclared v) :: lists)
  | other {v : Violation} {rest : List Violation} {seen : List (String × Place)}
      {lists : List (List Finding)} {f : Finding} (hrequired : v.keyword ≠ some "required")
      (hadditional : v.keyword ≠ some "additionalProperties") (hf : ofOther v = .ok f)
      (hname : f.keyword = keywordText v) (tail : Converts rest seen lists) :
      Converts (v :: rest) seen ([f] :: lists)

theorem ofViolation_first (hkeyword : v.keyword = some "required") {seen : List (String × Place)}
    (hnew : siteOf v ∉ seen) : ofViolation v seen = .ok (ofMissing v, siteOf v :: seen) := by
  rw [siteOf] at hnew
  simp [ofViolation, hkeyword, hnew, siteOf]

theorem ofViolation_again (hkeyword : v.keyword = some "required") {seen : List (String × Place)}
    (hold : siteOf v ∈ seen) : ofViolation v seen = .ok ([], seen) := by
  rw [siteOf] at hold
  simp [ofViolation, hkeyword, hold]

theorem ofViolation_closed (hkeyword : v.keyword = some "additionalProperties")
    (hsubject : v.subject.isMap = true) {extras : List (Value × Value)}
    (hextras : undeclaredEntries v.schema.value v.subject.entries = .ok extras)
    (seen : List (String × Place)) :
    ofViolation v seen = .ok (extras.map (undeclared v), seen) := by
  cases hmap : v.subject with
  | map entries =>
    rw [hmap, Value.entries] at hextras
    simp [ofViolation, hkeyword, hmap, ofUndeclared, hextras, bind, Except.bind, pure, Except.pure]
  | scalar s => simp [hmap, Value.isMap] at hsubject
  | list items => simp [hmap, Value.isMap] at hsubject

theorem ofViolation_other (hrequired : v.keyword ≠ some "required")
    (hadditional : v.keyword ≠ some "additionalProperties") {f : Finding} (hf : ofOther v = .ok f)
    (seen : List (String × Place)) : ofViolation v seen = .ok ([f], seen) := by
  unfold ofViolation
  split
  · next heq => exact absurd heq hrequired
  · next heq _ => exact absurd heq hadditional
  · rw [hf]
    rfl

theorem ofViolationsFrom_cons {rest : List Violation} {seen seen' : List (String × Place)}
    {found more : List Finding} (hreport : IsReportable v)
    (hv : ofViolation v seen = .ok (found, seen')) (hschema : ∀ f ∈ found, f.schema = schemaOf v)
    (hrest : ofViolationsFrom rest seen' = .ok more) :
    ofViolationsFrom (v :: rest) seen = .ok (found ++ more) := by
  have hnamed : found.all isNamed = true :=
    List.all_eq_true.mpr fun f hf => isNamed_of_schema hreport (hschema f hf)
  simp [ofViolationsFrom, hv, hnamed, hrest, bind, Except.bind, pure, Except.pure]

/-- Violations that can be reported are, one after the other. -/
theorem exists_converts {vs : List Violation} (harises : ∀ v ∈ vs, v.ArisesIn schemas subject)
    (hreport : ∀ v ∈ vs, IsReportable v) (seen : List (String × Place)) :
    ∃ lists, ofViolationsFrom vs seen = .ok lists.flatten ∧ Converts vs seen lists := by
  induction vs generalizing seen with
  | nil => exact ⟨[], rfl, .nil⟩
  | cons v rest ih =>
    have hv := harises v List.mem_cons_self
    have hr := hreport v List.mem_cons_self
    have ih (seen : List (String × Place)) := ih
      (fun w hw => harises w (List.mem_cons_of_mem _ hw))
      (fun w hw => hreport w (List.mem_cons_of_mem _ hw)) seen
    by_cases hrequired : v.keyword = some "required"
    · by_cases hseen : siteOf v ∈ seen
      · obtain ⟨lists, hlists, htail⟩ := ih seen
        have hstep := ofViolation_again hrequired hseen
        exact ⟨[] :: lists, ofViolationsFrom_cons hr hstep (by simp) hlists,
          .again hrequired hseen htail⟩
      · obtain ⟨lists, hlists, htail⟩ := ih (siteOf v :: seen)
        have hstep := ofViolation_first hrequired hseen
        have hschema : ∀ f ∈ ofMissing v, f.schema = schemaOf v := by
          intro f hf
          obtain ⟨name, _, rfl⟩ := List.mem_map.mp hf
          rfl
        exact ⟨ofMissing v :: lists, ofViolationsFrom_cons hr hstep hschema hlists,
          .first hrequired hseen htail⟩
    · obtain ⟨lists, hlists, htail⟩ := ih seen
      by_cases hadditional : v.keyword = some "additionalProperties"
      · obtain ⟨extras, hextras, hsome⟩ := hr.undeclared hadditional
        have hstep := ofViolation_closed hadditional (hv.additional hadditional) hextras seen
        have hschema : ∀ f ∈ extras.map (undeclared v), f.schema = schemaOf v := by
          intro f hf
          obtain ⟨e, _, rfl⟩ := List.mem_map.mp hf
          rfl
        exact ⟨_ :: lists, ofViolationsFrom_cons hr hstep hschema hlists,
          .closed hadditional hextras hsome htail⟩
      · obtain ⟨f, hf, hname, hschema⟩ := exists_ofOther hv.rateable
        have hstep := ofViolation_other hrequired hadditional hf seen
        exact ⟨[f] :: lists, ofViolationsFrom_cons hr hstep (by simpa using hschema) hlists,
          .other hrequired hadditional hf hname htail⟩

/-! ### The findings by their keywords -/

/-- A missing property and where it is missing. -/
def missingAt (p : Violation × Value) : (String × Place) × Value := (siteOf p.1, p.2)

/-- The entries of a value that the violated schema does not declare. -/
def undeclaredIn (v : Violation) : List (Value × Value) :=
  (undeclaredEntries v.schema.value v.subject.entries).toOption.getD []

/-- Neither of the two keywords whose findings are made of properties. -/
def isOther (keyword : String) : Bool := keyword != "required" && keyword != "additionalProperties"

section Converts

variable {vs : List Violation} {seen : List (String × Place)} {lists : List (List Finding)}

theorem Converts.isAbout (h : Converts vs seen lists) :
    List.Forall₂ (fun v found => ∀ f ∈ found, IsAbout f v) vs lists := by
  induction h with
  | nil => exact .nil
  | first hkeyword _ _ ih =>
    refine .cons (fun f hf => ?_) ih
    obtain ⟨name, hname, rfl⟩ := List.mem_map.mp hf
    exact .missing hkeyword hname
  | again _ _ _ ih => exact .cons (by simp) ih
  | closed hkeyword hextras _ _ ih =>
    refine .cons (fun f hf => ?_) ih
    obtain ⟨e, he, rfl⟩ := List.mem_map.mp hf
    exact .undeclared hkeyword hextras he
  | other hrequired hadditional hf _ _ ih =>
    refine .cons (fun g hg => ?_) ih
    rw [List.mem_singleton.mp hg]
    exact .other hrequired hadditional hf

/-- Findings for properties that violations miss at sites other than those seen: one for each property
at each site, with one of the violations there. -/
def ReportsMissing (vs : List Violation) (seen : List (String × Place)) (fs : List Finding) : Prop :=
  ∃ required : List (Violation × Value), (required.map missingAt).Nodup ∧
    (∀ t, t ∈ required.map missingAt ↔ t.1 ∉ seen ∧
      ∃ v ∈ vs, v.keyword = some "required" ∧ ∃ name ∈ missingIn v, missingAt (v, name) = t) ∧
    fs = required.map fun p => missing p.1 p.2

/-- A violation that misses nothing new changes nothing. -/
theorem ReportsMissing.cons {v : Violation} {fs : List Finding} (h : ReportsMissing vs seen fs)
    (hv : v.keyword = some "required" → siteOf v ∈ seen) : ReportsMissing (v :: vs) seen fs := by
  obtain ⟨required, hdistinct, hmem, hfs⟩ := h
  refine ⟨required, hdistinct, fun t => ?_, hfs⟩
  rw [hmem]
  constructor
  · rintro ⟨hsite, w, hw, hrest⟩
    exact ⟨hsite, w, List.mem_cons_of_mem _ hw, hrest⟩
  · rintro ⟨hsite, w, hw, hkeyword, name, hname, rfl⟩
    rcases List.mem_cons.mp hw with rfl | hw
    · exact absurd (hv hkeyword) hsite
    · exact ⟨hsite, w, hw, hkeyword, name, hname, rfl⟩

/-- Violations at one site miss the same properties, each once. -/
structure MissAlike (vs : List Violation) : Prop where
  same : ∀ v ∈ vs, ∀ w ∈ vs, v.keyword = some "required" → w.keyword = some "required" →
    siteOf v = siteOf w → missingIn v = missingIn w
  nodup : ∀ v ∈ vs, v.keyword = some "required" → (missingIn v).Nodup

theorem MissAlike.tail {v : Violation} (h : MissAlike (v :: vs)) : MissAlike vs :=
  ⟨fun a ha b hb => h.same a (List.mem_cons_of_mem _ ha) b (List.mem_cons_of_mem _ hb),
    fun a ha => h.nodup a (List.mem_cons_of_mem _ ha)⟩

/-- The first violation at a site misses all that is missing there. -/
theorem ReportsMissing.first {v : Violation} {fs : List Finding}
    (h : ReportsMissing vs (siteOf v :: seen) fs) (hkeyword : v.keyword = some "required")
    (hnew : siteOf v ∉ seen) (halike : MissAlike (v :: vs)) :
    ReportsMissing (v :: vs) seen (ofMissing v ++ fs) := by
  obtain ⟨required, hdistinct, hmem, hfs⟩ := h
  have hown : ((missingIn v).map (v, ·)).map missingAt = (missingIn v).map (siteOf v, ·) := by
    simp [missingAt]
  refine ⟨(missingIn v).map (v, ·) ++ required, ?_, fun t => ?_, ?_⟩
  · rw [List.map_append, hown, List.nodup_append]
    refine ⟨(halike.nodup v List.mem_cons_self hkeyword).map (by intro a b hab; simpa using hab),
      hdistinct, ?_⟩
    intro a ha b hb heq
    obtain ⟨name, _, rfl⟩ := List.mem_map.mp ha
    have hsite := ((hmem b).mp hb).1
    rw [← heq] at hsite
    exact hsite List.mem_cons_self
  · rw [List.map_append, hown, List.mem_append, hmem]
    constructor
    · rintro (ht | ⟨hsite, w, hw, hrest⟩)
      · obtain ⟨name, hname, rfl⟩ := List.mem_map.mp ht
        exact ⟨hnew, v, List.mem_cons_self, hkeyword, name, hname, rfl⟩
      · exact ⟨fun hseen => hsite (List.mem_cons_of_mem _ hseen), w,
          List.mem_cons_of_mem _ hw, hrest⟩
    · rintro ⟨hsite, w, hw, hwkeyword, name, hname, rfl⟩
      -- What is missing at the site of the first violation is what that one misses.
      by_cases heq : siteOf v = siteOf w
      · rw [← halike.same v List.mem_cons_self w hw hkeyword hwkeyword heq] at hname
        refine Or.inl (List.mem_map.mpr ⟨name, hname, ?_⟩)
        rw [heq, missingAt]
      · refine Or.inr ⟨?_, w, ?_, hwkeyword, name, hname, rfl⟩
        · intro hseen
          rcases List.mem_cons.mp hseen with h | h
          · exact heq h.symm
          · exact hsite h
        · rcases List.mem_cons.mp hw with rfl | hw
          · exact absurd rfl heq
          · exact hw
  · rw [hfs, List.map_append, ofMissing, List.map_map]
    rfl

/-- Each property that is missing somewhere is reported once, unless the site is already seen. -/
theorem Converts.reportsMissing (h : Converts vs seen lists)
    (halike : MissAlike vs) :
    ReportsMissing vs seen (lists.flatten.filter (·.keyword == "required")) := by
  induction h with
  | nil => exact ⟨[], .nil, by simp, rfl⟩
  | @first v rest seen lists hkeyword hnew _ ih =>
    have hrest := ih halike.tail
    have hall : (ofMissing v).filter (·.keyword == "required") = ofMissing v := by
      rw [List.filter_eq_self]
      intro f hf
      obtain ⟨name, _, rfl⟩ := List.mem_map.mp hf
      rfl
    rw [List.flatten_cons, List.filter_append, hall]
    exact hrest.first hkeyword hnew halike
  | @again v rest seen lists hkeyword hseen _ ih =>
    have hrest := ih halike.tail
    exact hrest.cons fun _ => hseen
  | @closed v rest seen lists extras hkeyword _ _ _ ih =>
    have hrest := ih halike.tail
    have hnone : (extras.map (undeclared v)).filter (·.keyword == "required") = [] := by
      simp [List.filter_map, undeclared]
    rw [List.flatten_cons, List.filter_append, hnone]
    refine hrest.cons fun hrequired => ?_
    rw [hkeyword] at hrequired
    exact absurd hrequired (by decide)
  | @other v rest seen lists f hrequired _ _ hname _ ih =>
    have hrest := ih halike.tail
    have hnone : [f].filter (·.keyword == "required") = [] := by
      simp [hname, keywordText_ne hrequired (by decide)]
    rw [List.flatten_cons, List.filter_append, hnone]
    exact hrest.cons fun h => absurd h hrequired

/-- Undeclared properties are reported for each violation. -/
theorem Converts.filter_undeclared (h : Converts vs seen lists) :
    lists.flatten.filter (·.keyword == "additionalProperties") =
      (vs.filter (·.keyword == some "additionalProperties")).flatMap fun v =>
        (undeclaredIn v).map (undeclared v) := by
  induction h with
  | nil => rfl
  | @first v rest _ lists hkeyword _ _ ih =>
    have hnone : (ofMissing v).filter (·.keyword == "additionalProperties") = [] := by
      simp [ofMissing, List.filter_map, missing]
    rw [List.flatten_cons, List.filter_append, hnone, ih, List.filter_cons, hkeyword]
    rfl
  | again hkeyword _ _ ih =>
    rw [List.flatten_cons, List.filter_append, ih, List.filter_cons, hkeyword]
    rfl
  | @closed v rest _ lists extras hkeyword hextras _ _ ih =>
    have hall : (extras.map (undeclared v)).filter (·.keyword == "additionalProperties") =
        extras.map (undeclared v) := by
      rw [List.filter_eq_self]
      intro f hf
      obtain ⟨e, _, rfl⟩ := List.mem_map.mp hf
      rfl
    have hentries : undeclaredIn v = extras := by
      rw [undeclaredIn, hextras]
      rfl
    rw [List.flatten_cons, List.filter_append, hall, ih, List.filter_cons, hkeyword,
      if_pos (by simp), List.flatMap_cons, hentries]
  | @other v rest _ lists f hrequired hadditional _ hname _ ih =>
    have hne := keywordText_ne hadditional (by decide)
    rw [List.flatten_cons, List.filter_append, ih, List.filter_cons]
    simp [hname, hne, hadditional]

/-- Every other violation is reported once, with its keyword. -/
theorem Converts.exists_others (h : Converts vs seen lists) :
    ∃ others, List.Forall₂ (fun v f => f.keyword = keywordText v ∧ ofOther v = .ok f)
        (vs.filter fun v => isOther (keywordText v)) others ∧
      lists.flatten.filter (fun f => isOther f.keyword) = others := by
  refine ⟨_, ?_, rfl⟩
  induction h with
  | nil => exact .nil
  | @first v rest _ lists hkeyword _ _ ih =>
    have hnone : (ofMissing v).filter (fun f => isOther f.keyword) = [] := by
      simp [ofMissing, List.filter_map, missing, isOther]
    have hv : isOther (keywordText v) = false := by simp [keywordText, hkeyword, isOther]
    rw [List.flatten_cons, List.filter_append, hnone, List.filter_cons, hv]
    exact ih
  | @again v rest _ lists hkeyword _ _ ih =>
    have hv : isOther (keywordText v) = false := by simp [keywordText, hkeyword, isOther]
    rw [List.flatten_cons, List.filter_append, List.filter_cons, hv]
    exact ih
  | @closed v rest _ lists extras hkeyword hextras _ _ ih =>
    have hnone : (extras.map (undeclared v)).filter (fun f => isOther f.keyword) = [] := by
      simp [List.filter_map, undeclared, isOther]
    have hv : isOther (keywordText v) = false := by simp [keywordText, hkeyword, isOther]
    rw [List.flatten_cons, List.filter_append, hnone, List.filter_cons, hv]
    exact ih
  | @other v rest _ lists f hrequired hadditional hf hname _ ih =>
    have hv : isOther (keywordText v) = true := by
      simp [isOther, keywordText_ne hrequired (by decide),
        keywordText_ne hadditional (by decide)]
    have hone : [f].filter (fun f => isOther f.keyword) = [f] := by simp [hname, hv]
    rw [List.flatten_cons, List.filter_append, hone, List.filter_cons, if_pos hv]
    exact .cons ⟨hname, hf⟩ ih

/-- Where there is a violation, there is a finding. -/
theorem Converts.flatten_eq_nil_iff (h : Converts vs [] lists)
    (hmissing : ∀ v ∈ vs, v.keyword = some "required" → missingIn v ≠ []) :
    lists.flatten = [] ↔ vs = [] := by
  cases h with
  | nil => simp
  | first hkeyword _ _ =>
    simp [ofMissing, hmissing _ List.mem_cons_self hkeyword]
  | again _ hseen _ => cases hseen
  | closed _ _ hsome _ => simp [hsome]
  | other _ _ _ _ _ => simp

end Converts

/-! ### The order of findings -/

theorem precedes_iff {a b : Finding} :
    precedes a b = true ↔ a.path < b.path ∨ a.path = b.path ∧ a.keyword ≤ b.keyword := by
  simp [precedes]

theorem precedes_trans (a b c : Finding) (hab : precedes a b = true) (hbc : precedes b c = true) :
    precedes a c = true := by
  rw [precedes_iff] at hab hbc ⊢
  rcases hab with hab | ⟨hab, hkeyword⟩
  · rcases hbc with hbc | ⟨hbc, _⟩
    · exact Or.inl (lt_trans hab hbc)
    · exact Or.inl (hbc ▸ hab)
  · rcases hbc with hbc | ⟨hbc, hkeyword'⟩
    · exact Or.inl (hab ▸ hbc)
    · exact Or.inr ⟨hab.trans hbc, le_trans hkeyword hkeyword'⟩

theorem precedes_total (a b : Finding) : (precedes a b || precedes b a) = true := by
  rw [Bool.or_eq_true, precedes_iff, precedes_iff]
  rcases lt_trichotomy a.path b.path with h | h | h
  · exact Or.inl (Or.inl h)
  · rcases le_total a.keyword b.keyword with hkeyword | hkeyword
    · exact Or.inl (Or.inr ⟨h, hkeyword⟩)
    · exact Or.inr (Or.inr ⟨h.symm, hkeyword⟩)
  · exact Or.inr (Or.inl h)

/-- Sorting keeps members in their order that come in any order. -/
theorem filter_mergeSort {fs : List Finding} {p : Finding → Bool}
    (hp : ∀ a b, p a = true → p b = true → precedes a b = true) :
    (fs.mergeSort precedes).filter p = fs.filter p := by
  have hpairwise : (fs.filter p).Pairwise (precedes · · = true) := by
    rw [List.pairwise_iff_forall_sublist]
    intro a b hab
    have ha := (List.mem_filter.mp (hab.subset List.mem_cons_self)).2
    have hb := (List.mem_filter.mp (hab.subset (List.mem_cons_of_mem _ List.mem_cons_self))).2
    exact hp a b ha hb
  have hsublist : (fs.filter p).Sublist (fs.mergeSort precedes) :=
    List.sublist_mergeSort precedes_trans precedes_total hpairwise List.filter_sublist
  have hfilter := hsublist.filter p
  simp only [List.filter_filter, Bool.and_self] at hfilter
  exact (hfilter.eq_of_length ((List.mergeSort_perm fs precedes).filter p).length_eq.symm).symm

/-! ### All findings -/

/-- The findings report the violations exactly. -/
structure Exact (vs : List Violation) (fs : List Finding) : Prop where
  /-- There is a finding exactly if there is a violation. -/
  nil_iff : fs = [] ↔ vs = []
  /-- A required property is reported once for each place and each schema that it is missing by,
  whichever of the violations there stands for the others. -/
  missing : ∃ ms, ReportsMissing vs [] ms ∧ (fs.filter (·.keyword == "required")).Perm ms
  /-- Each undeclared property is reported for each violation. -/
  undeclared : (fs.filter (·.keyword == "additionalProperties")).Perm
    ((vs.filter (·.keyword == some "additionalProperties")).flatMap fun v =>
      (undeclaredIn v).map (undeclared v))
  /-- Any other violation is reported once, by its keyword. -/
  other : ∃ others, List.Forall₂ (fun v f => f.keyword = keywordText v ∧ ofOther v = .ok f)
      (vs.filter fun v => isOther (keywordText v)) others ∧
    (fs.filter fun f => isOther f.keyword).Perm others
  /-- The findings are sorted by their places and keywords. -/
  sorted : fs.Pairwise (precedes · · = true)
  /-- Those with the same place and keyword are in the order of the violations. -/
  ties : ∃ lists, List.Forall₂ (fun v found => ∀ f ∈ found, IsAbout f v) vs lists ∧
    ∀ path keyword, fs.filter (fun f => f.path == path && f.keyword == keyword) =
      lists.flatten.filter fun f => f.path == path && f.keyword == keyword

/-- Violations at one place of a tree and of one schema miss the same properties. -/
theorem missAlike {vs : List Violation} (htree : subject.IsTree)
    (harises : ∀ v ∈ vs, v.ArisesIn schemas subject) (hreport : ∀ v ∈ vs, IsReportable v) :
    MissAlike vs := by
  refine ⟨fun v hv w hw hvkeyword hwkeyword hsite => ?_, fun v hv hkeyword => ?_⟩
  · obtain ⟨hpath, hplace⟩ := Prod.mk.inj hsite
    obtain ⟨hvleads, hventry, _⟩ := (harises v hv).required hvkeyword
    obtain ⟨hwleads, hwentry, _⟩ := (harises w hw).required hwkeyword
    have hsubject : v.subject = w.subject := htree.eq_of_leads hvleads hwleads hpath
    have hschema : v.schema.value = w.schema.value :=
      (harises v hv).isIn.value_eq (harises w hw).isIn hplace
    have hargument : v.argument = w.argument := by
      obtain ⟨names, hnames, hnodup⟩ := (hreport w hw).named
      have hkeys : (w.schema.value.entries.map (·.1)).Nodup := by
        rw [hnames]
        exact hnodup.map fun a b hab => by simpa using hab
      rw [hschema] at hventry
      exact congrArg Prod.snd (List.inj_on_of_nodup_map hkeys hventry hwentry rfl)
    rw [missingIn, missingIn, hsubject, hargument]
  · obtain ⟨_, _, hnodup⟩ := (hreport v hv).listed hkeyword
    exact hnodup

/-- Violations that can be reported are, and the findings report them exactly. -/
theorem exists_ofViolations {vs : List Violation} (htree : subject.IsTree)
    (harises : ∀ v ∈ vs, v.ArisesIn schemas subject) (hreport : ∀ v ∈ vs, IsReportable v) :
    ∃ fs, ofViolations vs = .ok fs ∧ Exact vs fs := by
  obtain ⟨lists, hlists, hconverts⟩ := exists_converts harises hreport []
  have hmissing : ∀ v ∈ vs, v.keyword = some "required" → missingIn v ≠ [] := by
    intro v hv hkeyword
    obtain ⟨_, _, entries, names, hsubject, hnames, hsome⟩ := (harises v hv).required hkeyword
    obtain ⟨names', hargument, _⟩ := (hreport v hv).listed hkeyword
    rw [hargument] at hnames
    cases hnames
    rw [missingIn, hsubject, hargument]
    exact hsome
  have hperm := List.mergeSort_perm lists.flatten precedes
  obtain ⟨others, hothers, hfilter⟩ := hconverts.exists_others
  refine ⟨lists.flatten.mergeSort precedes, ?_, ?_⟩
  · rw [ofViolations, hlists]
    rfl
  · refine ⟨?_, ⟨_, hconverts.reportsMissing (missAlike htree harises hreport), hperm.filter _⟩,
      ?_, ⟨others, hothers, ?_⟩, List.pairwise_mergeSort precedes_trans precedes_total _,
      ⟨lists, hconverts.isAbout, fun path keyword => filter_mergeSort ?_⟩⟩
    · rw [← hconverts.flatten_eq_nil_iff hmissing, ← List.length_eq_zero_iff,
        ← List.length_eq_zero_iff, hperm.length_eq]
    · rw [← hconverts.filter_undeclared]
      exact hperm.filter _
    · rw [← hfilter]
      exact hperm.filter _
    · intro a b ha hb
      rw [precedes_iff]
      simp only [Bool.and_eq_true, beq_iff_eq] at ha hb
      exact Or.inr ⟨ha.1.trans hb.1.symm, le_of_eq (ha.2.trans hb.2.symm)⟩

end Finding

/-! ### Sets of schemas -/

namespace SchemaSet

/-- The violations of the schema of a document type by content. -/
def violations (s : SchemaSet) (type : Option String) (content : Value) :
    Except CheckError (List Violation) := do
  let schema ← (s.schema? type).mapError .unknownType
  (Schema.violations s.registry ⟨schema, s.placeOf (type.getD "")⟩ content).mapError .fault

theorem findings_eq (s : SchemaSet) (type : Option String) (content : Value) :
    s.findings type content =
      s.violations type content >>= fun vs => (Finding.ofViolations vs).mapError .fault := by
  unfold findings violations
  cases s.schema? type with
  | error e => rfl
  | ok schema =>
    simp only [bind, Except.bind, Except.mapError]
    cases Schema.violations s.registry ⟨schema, s.placeOf (type.getD "")⟩ content with
    | error e => rfl
    | ok vs => rfl

/-- A fold that adds one value for each member adds them in the order of the members. -/
theorem map_of_foldlM_eq_ok {α β γ ε : Type} {f : List β → α → Except ε (List β)} {g : β → γ}
    {k : α → γ} (hf : ∀ acc a next, f acc a = .ok next → next.map g = acc.map g ++ [k a])
    {xs : List α} {acc result : List β} (h : xs.foldlM f acc = .ok result) :
    result.map g = acc.map g ++ xs.map k := by
  induction xs generalizing acc with
  | nil =>
    cases h
    simp
  | cons x xs ih =>
    rw [List.foldlM_cons] at h
    obtain ⟨next, hnext, h⟩ := bind_eq_ok_iff.mp h
    rw [ih h, hf _ _ _ hnext, List.append_assoc]
    rfl

/-- The schemas of a set are registered in their order. -/
theorem map_snd_addressed {source : String} {schemas result : List (String × Value)}
    (h : addressed source schemas = .ok result) : result.map (·.2) = schemas.map (·.2) := by
  refine map_of_foldlM_eq_ok (fun seen e next hnext => ?_) h
  obtain ⟨label, v⟩ := e
  obtain ⟨address?, _, hnext⟩ := bind_eq_ok_iff.mp hnext
  cases address? with
  | none => cases hnext
  | some address =>
    dsimp only at hnext
    split at hnext
    · cases hnext
    · split at hnext
      · cases hnext
      · cases hnext
      · cases hnext
        simp

theorem getElem?_of_lookup {documents : List (String × Value)} {type : String} {schema : Value}
    (h : documents.lookup type = some schema) :
    (documents.map (·.2))[documents.findIdx (·.1 == type)]? = some schema := by
  induction documents with
  | nil => cases h
  | cons d rest ih =>
    obtain ⟨type', schema'⟩ := d
    rw [List.map_cons, List.findIdx_cons]
    by_cases htype : type = type'
    · subst htype
      simpa using h
    · have hne : type' ≠ type := fun heq => htype heq.symm
      rw [List.lookup_cons, beq_eq_false_iff_ne.mpr htype] at h
      rw [beq_eq_false_iff_ne.mpr hne, cond_false, List.getElem?_cons_succ]
      exact ih h

/-- What a set of schemas registers, and the schema of a document type in it. -/
theorem exists_schemas {source : String} {index definitions : Value}
    {documents : List (String × Value)} {s : SchemaSet}
    (h : ofSchemas source index definitions documents = .ok s) :
    ∃ schemas, s.registry.IsOver schemas ∧ ∀ type schema, s.schema? type = .ok schema →
      Located.IsIn schemas ⟨schema, s.placeOf (type.getD "")⟩ := by
  obtain ⟨schemas, hschemas, h⟩ := bind_eq_ok_iff.mp h
  dsimp only at h
  split at h
  · cases h
  · cases h
    refine ⟨_, Registry.isOver_ofSchemas _, fun type schema hschema => ?_⟩
    unfold schema? at hschema
    split at hschema
    · next v hlookup =>
      cases hschema
      cases type with
      | none => cases hlookup
      | some type =>
        have hvalues : schemas.map (·.2) = index :: definitions :: documents.map (·.2) := by
          rw [map_snd_addressed hschemas]
          simp [labelled]
        have hdocument := getElem?_of_lookup hlookup
        simp only [Located.IsIn, placeOf, Place.value?, List.foldr_nil, Option.getD_some]
        rw [List.map_append, hvalues, List.cons_append, List.cons_append,
          List.getElem?_cons_succ, List.getElem?_cons_succ, List.getElem?_append_left]
        · exact hdocument
        · exact (List.getElem?_eq_some_iff.mp hdocument).1
    · cases hschema

/-- A set whose one document schema refers to a part of itself that no keyword leads to, so no check
of schemas sees it. The part holds a schema that is applied twice, one that requires a text, one that
requires a property twice, and one with a number among its keywords. -/
def sample : Except SchemaSetError SchemaSet :=
  ofSchemas "" (.object [("$id", "i")]) (.object [("$id", "d")])
    [("t", .object [("$id", "t"), ("$ref", "#/x"), ("x", .object [("properties", .object
      [("again", .object
        [("allOf", .list [.object [("$ref", "#/x/closed")], .object [("$ref", "#/x/closed")]])]),
       ("text", .object [("required", "a")]),
       ("repeated", .object [("required", .list ["a", "a"])]),
       ("numbered", .map [("required", .list ["a"]), (.int 1, "a")])]),
      ("closed", .object [("required", .list ["a"]), ("additionalProperties", false)])])])]

/-- Content with a mapping at one of the properties of the sample. -/
def sampleContent (property : String) (entries : List (String × Content)) : Value :=
  (Content.mapping [(property, .mapping entries)]).toValue

/-- The document schema of the sample. -/
def sampleDocument : Value :=
  .object [("$id", "t"), ("$ref", "#/x"), ("x", .object [("properties", .object
    [("again", .object
      [("allOf", .list [.object [("$ref", "#/x/closed")], .object [("$ref", "#/x/closed")]])]),
     ("text", .object [("required", "a")]),
     ("repeated", .object [("required", .list ["a", "a"])]),
     ("numbered", .map [("required", .list ["a"]), (.int 1, "a")])]),
    ("closed", .object [("required", .list ["a"]), ("additionalProperties", false)])])]

/-- The schemas of the sample by their addresses. -/
def sampleSchemas : List (String × Value) :=
  [("i", .object [("$id", "i")]), ("d", .object [("$id", "d")]), ("t", sampleDocument)]

/-- The sample with metadata. -/
def sampleSet (m : Metadata) : SchemaSet :=
  ⟨"", .object [("$id", "i")], .object [("$id", "d")], [("t", sampleDocument)],
    .ofSchemas (sampleSchemas ++ Metaschema.schemas), m⟩

theorem sampleSchemas_test : (sampleSchemas.all (fun e => Metaschema.isSimple 2 e.2 &&
      (e.2.get? "$id").bind Value.str? == some e.1 && !e.1.isEmpty) &&
    (Metadata.ofSchemas (.object [("$id", "i")]) (.object [("$id", "d")]) [("t", sampleDocument)]
      (.ofSchemas sampleSchemas)).toOption.isSome) = true := by
  decide +kernel

/-- The sample is built, and what is reported of content does not depend on its metadata. -/
theorem exists_sample : ∃ s, sample = .ok s ∧ s.violations = (sampleSet {}).violations ∧
    s.findings = (sampleSet {}).findings := by
  obtain ⟨hsimple, hmetadata⟩ := Bool.and_eq_true_iff.mp sampleSchemas_test
  have hsame : (labelled (.object [("$id", "i")]) (.object [("$id", "d")])
      [("t", sampleDocument)]).map (·.2) = sampleSchemas.map (·.2) := by
    simp [labelled, sampleSchemas]
  obtain ⟨m, hm⟩ := exists_ofSchemas_of_isSimple hsame hsimple (by decide)
    (by simp [sampleSchemas]) hmetadata
  exact ⟨sampleSet m, hm "", rfl, rfl⟩

theorem sample_test : (fun s : SchemaSet =>
    (s.violations (some "t") (sampleContent "again" [("b", .scalar .null)])).toOption.any
      (fun vs => vs.length == 4 && vs.all Finding.isReportable) &&
    (s.violations (some "t") (sampleContent "text" [])).toOption.any (!·.isEmpty) &&
    (s.findings (some "t") (sampleContent "text" [])).toOption.any (·.isEmpty) &&
    (s.violations (some "t") (sampleContent "repeated" [])).toOption.any
      (fun vs => (Finding.ofViolationsFrom vs []).toOption.any fun fs => fs.length == 2 &&
        fs.all fun f => f.path == "/repeated" && f.keyword == "required" &&
          f.message == "must have required property 'a'") &&
    (s.violations (some "t") (sampleContent "numbered" [])).toOption.any (!·.isEmpty) &&
    (s.findings (some "t") (sampleContent "numbered" [])).toOption.isNone) (sampleSet {}) = true := by
  decide +kernel

end SchemaSet

end BusinessModel
