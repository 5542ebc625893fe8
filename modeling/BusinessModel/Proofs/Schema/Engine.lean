import BusinessModel.Proofs.Schema.Keyword

/-!
Where the violations that a check reports come from. Each is of a schema in the registry. One of
`required` is about the part of the value at its path, which lacks some of the names that the schema
of the violation requires. The relevance of a violation, and of those inside it, can always be told.
-/

namespace BusinessModel

namespace Schema

/-- The relevance of the violation and of all that it is made of can be told. -/
inductive Violation.Rateable : Violation → Prop where
  | intro {v : Violation} (fits : ∃ b, v.fitsType = .ok b) (context : ∀ w ∈ v.context, w.Rateable) :
      v.Rateable

/-- The violation comes from checking the value against schemas. -/
structure Violation.ArisesIn (schemas : List Value) (subject : Value) (v : Violation) : Prop where
  /-- The violated schema is one of the schemas or a part of one. -/
  isIn : v.schema.IsIn schemas
  /-- Where names are required, the violated schema says so, and the part of the value at the path
  lacks one of them. -/
  required : v.keyword = some "required" →
    subject.Leads v.path v.subject ∧ (.str "required", v.argument) ∈ v.schema.value.entries ∧
      ∃ entries names, v.subject = .map entries ∧ membersOf v.argument = .ok names ∧
        missingNames names entries ≠ []
  /-- Undeclared properties are those of a mapping. -/
  additional : v.keyword = some "additionalProperties" → v.subject.isMap = true
  rateable : v.Rateable

namespace Violation

variable {schemas : List Value} {u x : Value} {v : Violation}

theorem Rateable.fits (h : v.Rateable) : ∃ b, v.fitsType = .ok b := by
  cases h with
  | intro fits _ => exact fits

theorem Rateable.of_mem_context (h : v.Rateable) {w : Violation} (hw : w ∈ v.context) :
    w.Rateable := by
  cases h with
  | intro _ context => exact context w hw

/-- What is seen from outside can be rated as before. -/
theorem Rateable.within (h : v.Rateable) (path : Option Segment) (trail : Option String) :
    (v.within path trail).Rateable := .intro h.fits fun _ hw => h.of_mem_context hw

/-- A violation by the whole value, seen from a schema around the violated one. -/
theorem ArisesIn.within_none (h : v.ArisesIn schemas u) (trail : Option String) :
    (v.within none trail).ArisesIn schemas u :=
  ⟨h.isIn, h.required, h.additional, h.rateable.within none trail⟩

/-- A violation by a part of the value, seen from the value. -/
theorem ArisesIn.within_some (h : v.ArisesIn schemas x) {s : Segment} (hstep : u.Step s x)
    (trail : Option String) : (v.within (some s) trail).ArisesIn schemas u := by
  refine ⟨h.isIn, fun hkeyword => ?_, h.additional, h.rateable.within (some s) trail⟩
  obtain ⟨hleads, hrest⟩ := h.required hkeyword
  exact ⟨.step hstep hleads, hrest⟩

/-- A violation by a key is none of required names. -/
theorem ArisesIn.of_key {key : String} (h : v.ArisesIn schemas (.str key)) :
    v.ArisesIn schemas u := by
  refine ⟨h.isIn, fun hkeyword => ?_, h.additional, h.rateable⟩
  obtain ⟨hleads, _, entries, _, hsubject, _⟩ := h.required hkeyword
  rw [hsubject] at hleads
  cases hleads.eq_of_scalar

end Violation

/-- All violations that applying a schema yields come from the value and the schemas. -/
def Applier.IsSound (schemas : List Value) (apply : Applier) : Prop :=
  ∀ scope schema subject, schema.IsIn schemas → subject.IsTree →
    Yields (Violation.ArisesIn schemas subject) (apply scope schema subject)

namespace Site

/-- What the keywords of a schema rely on: the schemas that are applied, and a value whose type has
been compared with the one that the schema asks for. -/
structure IsSound (schemas : List Value) (s : Site) : Prop where
  registry : s.registry.IsOver schemas
  apply : s.apply.IsSound schemas
  isIn : s.schema.IsIn schemas
  isTree : s.subject.IsTree
  fits : ∀ v : Violation, v.schema = s.schema → v.subject = s.subject → ∃ b, v.fitsType = .ok b

variable {schemas : List Value} {s : Site}

theorem arisesIn_forbidden {schema : Located} (hschema : schema.IsIn schemas)
    (hfalse : schema.value = .bool false) (u x : Value) :
    (forbidden schema x).ArisesIn schemas u := by
  refine ⟨hschema, nofun, nofun, .intro ⟨false, ?_⟩ (by simp [forbidden])⟩
  simp [Violation.fitsType, forbidden, hfalse, Value.get?]

/-- What a keyword applies is in the schemas. -/
theorem IsSound.isIn_of_holds (h : s.IsSound schemas) {argument : Located}
    (hargument : argument.IsIn schemas) {schema : Located} (hholds : s.Holds argument schema) :
    schema.IsIn schemas := by
  cases hholds with
  | argument => exact hargument
  | item hitem => exact hargument.of_mem_items hitem
  | entry hentry => exact hargument.of_mem_entries hentry
  | branch hbranch => exact h.isIn.of_get? hbranch
  | reference hfollow => exact isIn_of_follow h.registry hfollow

/-- What an applied schema reports comes from the value and the schemas. -/
theorem IsSound.arisesIn_of_passes (h : s.IsSound schemas) {keyword : String} {argument : Located}
    (hargument : argument.IsIn schemas) {v : Violation} (hv : s.Passes keyword argument v) :
    v.ArisesIn schemas s.subject := by
  cases hv with
  | forbidden happlies hfalse =>
    exact arisesIn_forbidden (h.isIn_of_holds hargument happlies.holds) hfalse _ _
  | inner happlies hvs hv =>
    have hschema := h.isIn_of_holds hargument happlies.holds
    cases happlies with
    | whole _ _ => exact ((h.apply _ _ _ hschema h.isTree).of_mem hvs _ hv).within_none _
    | part _ _ hstep =>
      have hpart := h.isTree.of_step hstep
      exact ((h.apply _ _ _ hschema hpart).of_mem hvs _ hv).within_some hstep _
    | name _ _ _ => exact (((h.apply _ _ _ hschema (.scalar _)).of_mem hvs _ hv).within_none _).of_key

/-- All that a keyword reports comes from the value and the schemas. -/
theorem IsSound.arisesIn_of_reports (h : s.IsSound schemas) {keyword : String} {argument : Located}
    (hargument : argument.IsIn schemas)
    (hentry : (.str keyword, argument.value) ∈ s.schema.value.entries) {v : Violation}
    (hv : s.Reports keyword argument v) : v.ArisesIn schemas s.subject := by
  cases hv with
  | passed hv => exact h.arisesIn_of_passes hargument hv
  | own hv =>
    refine ⟨hv.schema ▸ h.isIn, fun hkeyword => ?_, fun hkeyword => ?_,
      .intro (h.fits v hv.schema hv.subject) fun w hw =>
        (h.arisesIn_of_passes hargument (hv.context w hw)).rateable⟩
    · obtain ⟨rfl, hvalue, entries, names, hsubject, hnames, hsome⟩ := hv.required hkeyword
      rw [hv.path, hv.subject, hv.schema, hvalue]
      exact ⟨.here _, hentry, entries, names, hsubject, hnames, hsome⟩
    · rw [hv.subject]
      exact hv.additional hkeyword

end Site

/-! ### Distinct texts -/

/-- Whether the values are texts, and no two the same. -/
def areDistinctTexts (vs : List Value) : Bool :=
  vs.all (·.str?.isSome) && decide (vs.filterMap Value.str?).Nodup

theorem exists_of_areDistinctTexts {vs : List Value} (h : areDistinctTexts vs = true) :
    ∃ names : List String, vs = names.map .str ∧ names.Nodup := by
  rw [areDistinctTexts, Bool.and_eq_true, List.all_eq_true, decide_eq_true_eq] at h
  obtain ⟨htexts, hnodup⟩ := h
  refine ⟨_, ?_, hnodup⟩
  clear hnodup
  induction vs with
  | nil => rfl
  | cons v rest ih =>
    have hrest := ih fun w hw => htexts w (List.mem_cons_of_mem _ hw)
    obtain ⟨text, htext⟩ := Option.isSome_iff_exists.mp (htexts v List.mem_cons_self)
    have hv : v = .str text := by
      unfold Value.str? at htext
      split at htext
      · cases htext
        rfl
      · cases htext
    rw [List.filterMap_cons_some htext, List.map_cons, ← hrest, hv]

/-! ### Schemas -/

theorem mem_of_lookup_text {key : String} {entries : List (Value × Value)} {v : Value}
    (h : Value.lookup key entries = some v) : (.str key, v) ∈ entries := by
  fun_induction Value.lookup key entries with
  | case1 => cases h
  | case2 k w rest hsame =>
    cases h
    rw [eq_of_beq hsame]
    exact List.mem_cons_self
  | case3 k w rest hsame ih => exact List.mem_cons_of_mem _ (ih h)
  | case4 e rest _ ih => exact List.mem_cons_of_mem _ (ih h)

/-- Where the types of a schema have been compared with that of a value, they can be again. -/
theorem exists_fitsType {schema subject : Value}
    (h : ∀ argument, schema.get? "type" = some argument →
      ∃ complaint, complaint? "type" argument subject = .ok complaint)
    {v : Violation} (hschema : v.schema.value = schema) (hsubject : v.subject = subject) :
    ∃ b, v.fitsType = .ok b := by
  unfold Violation.fitsType
  rw [hschema, hsubject]
  cases htype : schema.get? "type" with
  | none => exact ⟨false, rfl⟩
  | some argument =>
    obtain ⟨complaint, hcomplaint⟩ := h argument htype
    simp only [complaint?] at hcomplaint
    obtain ⟨b, hb, _⟩ := bind_eq_ok_iff.mp hcomplaint
    dsimp only
    split
    · next name heq =>
      cases heq
      simp only [hasTypeOf, List.anyM] at hb
      obtain ⟨fits, hfits, _⟩ := bind_eq_ok_iff.mp hb
      exact ⟨fits, hfits⟩
    · next names heq =>
      cases heq
      exact ⟨b, hb⟩
    · exact ⟨false, rfl⟩

/-- Where a value has been checked against a schema, its type has been compared. -/
theorem exists_complaint_of_check {r : Registry} {fuel : Nat} {scope : Scope} {schema : Located}
    {subject : Value} {vs : List Violation}
    (hvs : check r (fuel + 1) scope schema subject = .ok vs) {argument : Value}
    (hargument : schema.value.get? "type" = some argument) :
    ∃ complaint, complaint? "type" argument subject = .ok complaint := by
  unfold check at hvs
  split at hvs
  · next heq => simp [heq, Value.get?] at hargument
  · next heq => simp [heq, Value.get?] at hargument
  · next entries hentries =>
    obtain ⟨lists, hlists, _⟩ := bind_eq_ok_iff.mp hvs
    rw [hentries, Value.get?] at hargument
    obtain ⟨i, hi⟩ := List.getElem?_of_mem (mem_of_lookup_text hargument)
    have hmem : (Value.str "type", schema.part i argument) ∈ schema.entries := by
      refine Located.mem_entries_iff.mpr ⟨i, argument, ?_, rfl⟩
      rw [hentries]
      exact hi
    obtain ⟨_, _, hlist⟩ := exists_eq_ok_of_mapM hlists hmem
    obtain ⟨own, hown, _⟩ := bind_eq_ok_iff.mp hlist
    obtain ⟨complaint, hcomplaint, _⟩ := bind_eq_ok_iff.mp hown
    exact ⟨complaint, hcomplaint⟩
  · cases hvs

/-- All violations that a check reports come from the value and the schemas. -/
theorem check_isSound {schemas : List Value} {r : Registry} (hr : r.IsOver schemas) (fuel : Nat) :
    (check r fuel).IsSound schemas := by
  induction fuel with
  | zero => exact fun _ _ _ _ _ => .error _
  | succ fuel ih =>
    intro scope schema subject hschema hsubject
    constructor
    intro vs hvs v hv
    rcases (check_reports hsubject).of_mem hvs v hv with ⟨hfalse, rfl⟩ | hreports
    · exact Site.arisesIn_forbidden hschema hfalse _ _
    · obtain ⟨keyword, argument, w, hmem, hw, rfl⟩ := hreports
      have hsite : (⟨r, scope, schema, subject, check r fuel⟩ : Site).IsSound schemas :=
        ⟨hr, ih, hschema, hsubject, fun v hv =>
          exists_fitsType (fun _ => exists_complaint_of_check hvs) (congrArg Located.value hv)⟩
      obtain ⟨i, value, hi, heq⟩ := Located.mem_entries_iff.mp hmem
      have hentry : (Value.str keyword, argument.value) ∈ schema.value.entries := by
        rw [heq]
        exact List.mem_of_getElem? hi
      have harises := hsite.arisesIn_of_reports (hschema.of_mem_entries hmem) hentry hw
      unfold Violation.under
      split
      · exact harises
      · exact harises.within_none _

end Schema

end BusinessModel
