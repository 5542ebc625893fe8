import BusinessModel.Proofs.Schema.Application
import BusinessModel.Proofs.Schema.Bundled.Form
import BusinessModel.Proofs.Schema.Meeting
import BusinessModel.Proofs.Tree

/-!
Checking values against the bundled schemas, form by form: which schemas are applied to the parts of
a value, and what a value that nothing is found wrong with looks like.
-/

namespace BusinessModel.Schema.Bundled

/-- The segments are those of a way along the turns into a value. -/
inductive Follows : List Turn → List Segment → Prop where
  | nil : Follows [] []
  | field {name turns segments} : Follows turns segments →
      Follows (.field name :: turns) (.key name :: segments)
  | item {i : Nat} {turns segments} : Follows turns segments →
      Follows (.item :: turns) (.index i :: segments)
  | entry {name turns segments} : Follows turns segments →
      Follows (.entry :: turns) (.key name :: segments)
  | way {turns segments} : Follows turns segments → Follows (.way :: turns) segments

theorem Follows.append {turns turns' : List Turn} {segments segments' : List Segment}
    (h : Follows turns segments) (h' : Follows turns' segments') :
    Follows (turns ++ turns') (segments ++ segments') := by
  induction h with
  | nil => exact h'
  | field _ ih => exact .field ih
  | item _ ih => exact .item ih
  | entry _ ih => exact .entry ih
  | way _ ih => exact .way ih

/-- The value meets the schema, when it is applied in the scope. -/
def Meets (r : Registry) (scope : Scope) (s : Located) (x : Value) : Prop :=
  ∃ depth, check r depth scope s x = .ok []

section Stands

variable {s inner : Located} {scope : Scope} {h : Home} {f : Form} {x y : Value}

theorem Stands.isMap (hs : Stands s scope h f) : s.value.isMap = true := by
  rw [hs.value_eq, f.value_eq]
  rfl

/-- The scope stays the same in a schema without an address of its own. -/
theorem enter_eq {g : Form} (hid : g.value.get? "$id" = none) (hvalue : inner.value = g.value) :
    scope.enter inner.value = .ok scope := by
  rw [hvalue]
  rw [g.value_eq, Value.object, Value.get?] at hid
  rw [g.value_eq, Value.object, Scope.enter, idOf?, hid]
  rfl

theorem Stands.holds (hs : Stands s scope h f) (hplain : f.isPlain h = true) {keyword : String}
    {argument : Located} (hmem : (.str keyword, argument) ∈ s.entries) :
    f.Holds keyword argument.value ∧ argument.place.root = s.place.root := by
  obtain ⟨i, keyword', hentry, heq, hpart⟩ := hs.mem_entries_iff.mp hmem
  cases heq
  refine ⟨Form.holds_of_mem hplain (List.mem_of_getElem? hentry), ?_⟩
  rw [hpart]
  rfl

theorem mem_inner_of_items {argument : Located} {forms : List Form}
    (hvalue : argument.value = .list (Form.listedValues forms)) (hinner : inner ∈ argument.items) :
    ∃ g ∈ forms, inner.value = g.value ∧ inner.place.root = argument.place.root := by
  obtain ⟨i, v, hv, rfl⟩ := Located.mem_items_iff.mp hinner
  rw [hvalue, Form.listedValues_eq] at hv
  obtain ⟨g, hg, rfl⟩ := List.mem_map.mp (List.mem_of_getElem? hv)
  exact ⟨g, hg, rfl, rfl⟩

theorem mem_inner_of_entries {argument : Located} {forms : List (String × Form)} {k : Value}
    (hvalue : argument.value = .object (Form.namedValues forms))
    (hinner : (k, inner) ∈ argument.entries) : ∃ name g, k = .str name ∧ (name, g) ∈ forms ∧
      inner.value = g.value ∧ inner.place.root = argument.place.root := by
  obtain ⟨i, v, hv, rfl⟩ := Located.mem_entries_iff.mp hinner
  rw [hvalue, Form.namedValues_eq] at hv
  simp only [Value.object, Value.entries, List.getElem?_map, Option.map_eq_some_iff,
    Prod.mk.injEq] at hv
  obtain ⟨e, ⟨e', he', rfl⟩, rfl, rfl⟩ := hv
  exact ⟨e'.1, e'.2, rfl, List.mem_of_getElem? he', rfl, rfl⟩

/-- The keywords that a plain form has besides those that are inert. -/
def formKeywords : List String := ["properties", "additionalProperties", "items", "oneOf", "$ref"]

/-- A keyword besides those that are inert holds one thing. -/
theorem Form.Holds.unique {keyword : String} (hkeyword : keyword ∈ formKeywords) {v w : Value}
    (hv : f.Holds keyword v) (hw : f.Holds keyword w) : v = w := by
  have hinert : keyword ∉ inertKeywords :=
    (by decide : ∀ k ∈ formKeywords, k ∉ inertKeywords) keyword hkeyword
  -- different keywords and different forms are left out by their names
  cases hv with
  | inert hin => exact absurd hin hinert
  | _ hf hkey hv =>
    cases hw with
    | inert hin => exact absurd hin hinert
    | _ hf' hkey' hw => simp_all

theorem Stands.keyword_mem (hs : Stands s scope h f) (hplain : f.isPlain h = true)
    {keyword : String} {argument : Located} (hmem : (.str keyword, argument) ∈ s.entries) :
    keyword ∈ inertKeywords ++ formKeywords := by
  rw [List.mem_append]
  cases (hs.holds hplain hmem).1 with
  | inert hin => exact .inl hin
  | _ _ hkey _ => exact .inr (by simp [hkey, formKeywords])

/-- The schema inside stands for the form that a turn leads to, in the same scope. -/
def Opens (scope : Scope) (h : Home) (f : Form) (turn : Turn) (inner : Located) : Prop :=
  ∃ g, (some turn, h, g) ∈ f.inner h ∧ Stands inner scope h g ∧
    scope.enter inner.value = .ok scope

section Opens

variable {argument : Located} (hs : Stands s scope h f) (htidy : f.isTidy h = true)

include hs htidy

/-- The forms inside a tidy form have no addresses of their own, so the scope stays. -/
theorem Stands.opens {turn : Turn} {g : Form} (hmem : (some turn, h, g) ∈ f.inner h)
    (hvalue : inner.value = g.value) (hroot : inner.place.root = s.place.root) :
    Opens scope h f turn inner := by
  have hid := List.all_eq_true.mp (Bool.and_eq_true_iff.mp htidy).2 _ hmem
  exact ⟨g, hmem, hs.inside hvalue hroot, enter_eq (Option.isNone_iff_eq_none.mp hid) hvalue⟩

theorem Stands.opens_way {keyword : String} (hkeyword : keyword ∈ ["allOf", "anyOf", "oneOf"])
    (hmem : (.str keyword, argument) ∈ s.entries) (hinner : inner ∈ argument.items) :
    Opens scope h f .way inner := by
  obtain ⟨hholds, hroot⟩ := hs.holds (Bool.and_eq_true_iff.mp htidy).1 hmem
  cases hholds with
  | inert hin =>
    exact absurd hkeyword ((by decide : ∀ k ∈ inertKeywords, k ∉ ["allOf", "anyOf", "oneOf"]) _ hin)
  | @ways gs hf _ hvalue =>
    obtain ⟨g, hg, hinnerv, hinnerr⟩ := mem_inner_of_items hvalue hinner
    refine hs.opens htidy ?_ hinnerv (hinnerr.trans hroot)
    rw [hf]
    exact List.mem_map_of_mem hg
  | _ _ hkey _ =>
    subst hkey
    exact absurd hkeyword (by decide)

theorem Stands.opens_property {k : Value} (hmem : (.str "properties", argument) ∈ s.entries)
    (hinner : (k, inner) ∈ argument.entries) :
    ∃ name, k = .str name ∧ Opens scope h f (.field name) inner := by
  obtain ⟨hholds, hroot⟩ := hs.holds (Bool.and_eq_true_iff.mp htidy).1 hmem
  cases hholds with
  | inert hin => exact absurd hin (by decide)
  | @properties front ps back hf _ hvalue =>
    obtain ⟨name, g, rfl, hg, hinnerv, hinnerr⟩ := mem_inner_of_entries hvalue hinner
    refine ⟨name, rfl, hs.opens htidy ?_ hinnerv (hinnerr.trans hroot)⟩
    rw [hf]
    exact List.mem_map.mpr ⟨_, hg, rfl⟩
  | _ _ hkey _ => exact absurd hkey (by decide)

theorem Stands.opens_additional (hmem : (.str "additionalProperties", inner) ∈ s.entries) :
    inner.value = .bool false ∨ Opens scope h f .entry inner := by
  obtain ⟨hholds, hroot⟩ := hs.holds (Bool.and_eq_true_iff.mp htidy).1 hmem
  cases hholds with
  | inert hin => exact absurd hin (by decide)
  | closed _ _ hvalue => exact .inl hvalue
  | elements hf _ hvalue =>
    refine .inr (hs.opens htidy ?_ hvalue hroot)
    rw [hf]
    exact List.mem_singleton_self _
  | values hf _ hvalue =>
    refine .inr (hs.opens htidy ?_ hvalue hroot)
    rw [hf]
    exact List.mem_singleton_self _
  | _ _ hkey _ => exact absurd hkey (by decide)

theorem Stands.opens_items (hmem : (.str "items", inner) ∈ s.entries) :
    Opens scope h f .item inner := by
  obtain ⟨hholds, hroot⟩ := hs.holds (Bool.and_eq_true_iff.mp htidy).1 hmem
  cases hholds with
  | inert hin => exact absurd hin (by decide)
  | items hf _ hvalue =>
    refine hs.opens htidy ?_ hvalue hroot
    rw [hf]
    exact List.mem_singleton_self _
  | _ _ hkey _ => exact absurd hkey (by decide)

end Opens

/-- The schema allows no further properties, and the value has some. -/
def Exceeds (s : Located) (x : Value) : Prop :=
  ∃ entries extras argument, x = .map entries ∧ (.str "additionalProperties", argument) ∈ s.entries ∧
    argument.value = .bool false ∧ undeclared s.value entries = .ok extras ∧ extras ≠ []

/-- The schema that a value is handed to stands for a form one turn inside, or it allows nothing. -/
theorem Stands.of_hands (hs : Stands s scope h f) (htidy : f.isTidy h = true)
    {step : List Segment} (hhands : Hands s x inner step y) :
    inner.value = .bool false ∧ Exceeds s x ∨
      ∃ turn, Opens scope h f turn inner ∧ Follows [turn] step := by
  have hnone {keyword : String} {argument : Located} (hmem : (.str keyword, argument) ∈ s.entries)
      (hkeyword : keyword ∉ inertKeywords ++ formKeywords) : False :=
    hkeyword (hs.keyword_mem (Bool.and_eq_true_iff.mp htidy).1 hmem)
  cases hhands with
  | way hkeyword hmem hinner =>
    exact .inr ⟨.way, hs.opens_way htidy hkeyword hmem hinner, .way .nil⟩
  | condition hkeyword hmem =>
    simp only [List.mem_cons, List.not_mem_nil, or_false] at hkeyword
    rcases hkeyword with rfl | rfl | rfl | rfl
    all_goals exact (hnone hmem (by decide)).elim
  | dependent hmem _ => exact (hnone hmem (by decide)).elim
  | property hmem hinner hentry =>
    obtain ⟨name, hname, hopens⟩ := hs.opens_property htidy hmem hinner
    cases hname
    exact .inr ⟨.field _, hopens, .field .nil⟩
  | pattern hmem => exact (hnone hmem (by decide)).elim
  | @additional entries _ extras _ _ hmem hextras hentry =>
    rcases hs.opens_additional htidy hmem with hfalse | hopens
    · exact .inl ⟨hfalse, entries, extras, inner, rfl, hmem, hfalse, hextras,
        List.ne_nil_of_mem hentry⟩
    · exact .inr ⟨.entry, hopens, .entry .nil⟩
  | unevaluated hmem => exact (hnone hmem (by decide)).elim
  | item hkeyword hmem hentry =>
    simp only [List.mem_cons, List.not_mem_nil, or_false] at hkeyword
    rcases hkeyword with rfl | rfl | rfl
    · exact .inr ⟨.item, hs.opens_items htidy hmem, .item .nil⟩
    · exact (hnone hmem (by decide)).elim
    · exact (hnone hmem (by decide)).elim
  | front hmem => exact (hnone hmem (by decide)).elim

theorem Stands.get?_eq_none (hs : Stands s scope h f) (hplain : f.isPlain h = true)
    {keyword : String} (hkeyword : keyword ∉ inertKeywords ++ formKeywords) :
    s.value.get? keyword = none := by
  rw [hs.value_eq, f.value_eq, Value.get?_object]
  cases hlookup : f.keywords.lookup keyword with
  | none => rfl
  | some v =>
    exfalso
    rw [List.mem_append, not_or] at hkeyword
    cases Form.holds_of_mem hplain (mem_of_lookup hlookup) with
    | inert hin => exact hkeyword.1 hin
    | _ _ hkey _ => exact hkeyword.2 (by simp [hkey, formKeywords])

theorem Stands.exists_entry (hs : Stands s scope h f) {keyword : String} {v : Value}
    (hmem : (keyword, v) ∈ f.keywords) :
    ∃ argument, (.str keyword, argument) ∈ s.entries ∧ argument.value = v := by
  obtain ⟨i, hi⟩ := List.getElem?_of_mem hmem
  exact ⟨s.part i v, hs.mem_entries_iff.mpr ⟨i, keyword, hi, rfl, rfl⟩, rfl⟩

/-- Whether a form describes values itself, and does not just lead to others. -/
def Form.isDirect : Form → Bool
  | shared _ | own _ | oneOf _ => false
  | _ => true

/-! ### Values with which nothing is wrong -/

variable {r : Registry}

/-- Of a value that meets a schema, no keyword has anything to report. -/
theorem Meets.exists_site (hmeets : Meets r scope s x) (hs : Stands s scope h f) :
    ∃ depth, ∀ keyword argument, (.str keyword, argument) ∈ s.entries →
      keywordViolations ⟨r, scope, s, x, check r depth⟩ depth keyword argument = .ok [] := by
  obtain ⟨depth, hcheck⟩ := hmeets
  cases depth with
  | zero => cases hcheck
  | succ depth => exact ⟨depth, (check_eq_nil_iff hs.isMap).mp hcheck⟩

theorem Meets.of_admits {depth : Nat} {g : Form} {scope' : Scope}
    (hadmits : Site.Admits ⟨r, scope, s, x, check r depth⟩ scope' inner y)
    (hvalue : inner.value = g.value) : Meets r scope' inner y := by
  rcases hadmits with htrue | ⟨_, hcheck⟩
  · rw [hvalue, g.value_eq] at htrue
    cases htrue
  · exact ⟨depth, hcheck⟩

theorem Meets.of_enters {depth : Nat} {g : Form}
    (henters : Site.Enters ⟨r, scope, s, x, check r depth⟩ inner y) (hvalue : inner.value = g.value)
    (henter : scope.enter inner.value = .ok scope) : Meets r scope inner y := by
  obtain ⟨scope', henter', hadmits⟩ := henters
  rw [henter] at henter'
  cases henter'
  exact .of_admits hadmits hvalue

/-- A value that meets a schema has no properties that it does not allow. -/
theorem Meets.not_exceeds (hmeets : Meets r scope s x) (hs : Stands s scope h f) :
    ¬ Exceeds s x := by
  obtain ⟨depth, hsite⟩ := hmeets.exists_site hs
  rintro ⟨entries, extras, argument, hx, hmem, hfalse, hextras, hne⟩
  have hnone := (Site.noAdditionalProperties_eq_nil_iff hfalse).mp (hsite _ _ hmem) entries hx
  rw [hextras] at hnone
  exact hne (Except.ok.inj hnone)

/-- A value that meets a schema is of the type that the schema asks for. -/
theorem Meets.holds_type (hmeets : Meets r scope s x) (hs : Stands s scope h f) {name : String}
    {t : ValueType} (hname : ("type", .str name) ∈ f.keywords)
    (ht : ValueType.ofText? name = some t) : t.holds x = true := by
  obtain ⟨depth, hsite⟩ := hmeets.exists_site hs
  obtain ⟨argument, hmem, hvalue⟩ := hs.exists_entry hname
  exact (Site.type_eq_nil_iff hvalue ht).mp (hsite _ _ hmem)

theorem valueAt?_ne_none {entries : List (Value × Value)} {name : String}
    (h : (.str name, y) ∈ entries) : valueAt? (.str name) entries ≠ none := by
  change Value.lookupScalar (.str name) entries ≠ none
  fun_induction Value.lookupScalar (.str name) entries with
  | case1 => cases h
  | case2 => exact Option.some_ne_none _
  | case3 k v rest hdiffers ih =>
    refine ih ((List.mem_cons.mp h).resolve_left fun heq => ?_)
    cases heq
    simp [Scalar.same] at hdiffers
  | case4 e rest hother ih =>
    refine ih ((List.mem_cons.mp h).resolve_left fun heq => ?_)
    exact hother (.str name) y heq.symm

/-- The key of an entry of a tree leads to its value. -/
theorem valueAt?_of_mem {entries : List (Value × Value)} (hx : Value.IsTree (.map entries))
    {name : String} (hentry : (.str name, y) ∈ entries) :
    valueAt? (.str name) entries = some y := by
  cases hv : valueAt? (.str name) entries with
  | none => exact absurd hv (valueAt?_ne_none hentry)
  | some v =>
    have hstep := step_of_valueAt? hx hv
    cases hstep with
    | entry hentry' => rw [hx.value_unique hentry hentry']

/-- The parts of a value that meets a schema meet the schemas that they are handed to. -/
theorem Stands.meets_of_hands (hs : Stands s scope h f) (htidy : f.isTidy h = true)
    (hx : x.IsTree) (hmeets : Meets r scope s x) {step : List Segment}
    (hhands : Hands s x inner step y) (hstep : step ≠ []) : Meets r scope inner y := by
  have hplain := (Bool.and_eq_true_iff.mp htidy).1
  obtain ⟨depth, hsite⟩ := hmeets.exists_site hs
  have hnone {keyword : String} {argument : Located} (hmem : (.str keyword, argument) ∈ s.entries)
      (hkeyword : keyword ∉ inertKeywords ++ formKeywords) : False :=
    hkeyword (hs.keyword_mem hplain hmem)
  rcases hs.of_hands htidy hhands with ⟨_, hexceeds⟩ | ⟨turn, ⟨g, _, hinner, henter⟩, _⟩
  · exact absurd hexceeds (hmeets.not_exceeds hs)
  · suffices henters : Site.Enters ⟨r, scope, s, x, check r depth⟩ inner y from
      .of_enters henters hinner.value_eq henter
    cases hhands with
    | way => exact absurd rfl hstep
    | condition => exact absurd rfl hstep
    | dependent => exact absurd rfl hstep
    | property hmem hmem' hentry =>
      exact Site.properties_eq_nil_iff.mp (hsite _ _ hmem) _ rfl _ _ hmem' y
        (valueAt?_of_mem hx hentry)
    | pattern hmem => exact (hnone hmem (by decide)).elim
    | additional hmem hextras hentry =>
      obtain ⟨extras, hextras', henters⟩ :=
        (Site.additionalProperties_eq_nil_iff hinner.isMap).mp (hsite _ _ hmem) _ rfl
      rw [hextras] at hextras'
      cases hextras'
      exact henters _ hentry
    | unevaluated hmem => exact (hnone hmem (by decide)).elim
    | item hkeyword hmem hentry =>
      simp only [List.mem_cons, List.not_mem_nil, or_false] at hkeyword
      rcases hkeyword with rfl | rfl | rfl
      · have hany : inner.value ≠ .bool false := by
          rw [hinner.value_eq, g.value_eq]
          exact nofun
        exact (Site.items_eq_nil_iff hany (hs.get?_eq_none hplain (by decide))).mp
          (hsite _ _ hmem) _ rfl _ (List.mem_of_getElem? hentry)
      · exact (hnone hmem (by decide)).elim
      · exact (hnone hmem (by decide)).elim
    | front hmem => exact (hnone hmem (by decide)).elim

/-- What is not declared is handed to the schema for further properties. -/
theorem Stands.hands_additional (hs : Stands s scope h f) (hplain : f.isPlain h = true)
    {entries : List (Value × Value)} {name : String} (hentry : (.str name, y) ∈ entries)
    (hundeclared : valueAt? (.str name) ((s.value.get? "properties").getD .null).entries = none)
    {v : Value} (hmem : ("additionalProperties", v) ∈ f.keywords) :
    ∃ inner, Hands s (.map entries) inner [.key name] y := by
  have hpatterns : s.value.get? "patternProperties" = none := hs.get?_eq_none hplain (by decide)
  obtain ⟨extras, hextras, hiff⟩ := exists_undeclared hpatterns entries
  obtain ⟨inner, hinner, _⟩ := hs.exists_entry hmem
  exact ⟨inner, .additional hinner hextras ((hiff _).mpr ⟨hentry, hundeclared⟩)⟩

/-- Only the properties of a form are declared. -/
theorem Stands.undeclared_of_lookup (hs : Stands s scope h f) (hplain : f.isPlain h = true)
    {name : String} (hnone : ∀ front ps back, f = .fields front ps back →
      (Form.namedValues ps).lookup name = none) :
    valueAt? (.str name) ((s.value.get? "properties").getD .null).entries = none := by
  rw [hs.value_eq, f.value_eq, Value.get?_object]
  cases hlookup : f.keywords.lookup "properties" with
  | none => rfl
  | some v =>
    cases Form.holds_of_mem hplain (mem_of_lookup hlookup) with
    | inert hin => exact absurd hin (by decide)
    | properties hf _ hv =>
      rw [hv, Option.getD_some, valueAt?_object]
      exact hnone _ _ _ hf
    | _ _ hkey _ => exact absurd hkey (by decide)

theorem Stands.hands_field {front back : List (String × Value)} {ps : List (String × Form)}
    (hs : Stands s scope h (.fields front ps back))
    (hplain : (Form.fields front ps back).isPlain h = true) {entries : List (Value × Value)}
    {name : String} (hentry : (.str name, y) ∈ entries) :
    ∃ inner, Hands s (.map entries) inner [.key name] y := by
  cases hlookup : (Form.namedValues ps).lookup name with
  | some v =>
    obtain ⟨argument, hmem, hargument⟩ := hs.exists_entry
      (List.mem_append_right front List.mem_cons_self)
    obtain ⟨i, hi⟩ := List.getElem?_of_mem (mem_of_lookup hlookup)
    refine ⟨argument.part i v, .property hmem ?_ hentry⟩
    refine Located.mem_entries_iff.mpr ⟨i, v, ?_, rfl⟩
    rw [hargument]
    simp [Value.object, Value.entries, hi]
  | none =>
    obtain ⟨v, hv⟩ := Option.isSome_iff_exists.mp (Bool.and_eq_true_iff.mp hplain).2
    refine hs.hands_additional (v := v) hplain hentry (hs.undeclared_of_lookup hplain ?_) ?_
    · rintro _ _ _ heq
      cases heq
      exact hlookup
    · rcases List.mem_append.mp (mem_of_lookup hv) with hfront | hback
      · exact List.mem_append_left _ hfront
      · exact List.mem_append_right _ (List.mem_cons_of_mem _ hback)

theorem mem_of_asksFor {types : List String} {keywords : List (String × Value)}
    (hasks : asksFor types keywords = true) :
    ∃ name ∈ types, ("type", .str name) ∈ keywords := by
  unfold asksFor at hasks
  split at hasks
  · next name hname => exact ⟨name, List.contains_iff_mem.mp hasks, mem_of_lookup hname⟩
  · cases hasks

theorem type_object_mem {front back : List (String × Value)} {ps : List (String × Form)}
    (hasks : asksFor ["object"] (front ++ back) = true) :
    ("type", .str "object") ∈ (Form.fields front ps back).keywords := by
  obtain ⟨name, hname, hmem⟩ := mem_of_asksFor hasks
  cases List.mem_singleton.mp hname
  rcases List.mem_append.mp hmem with hfront | hback
  · exact List.mem_append_left _ hfront
  · exact List.mem_append_right _ (List.mem_cons_of_mem _ hback)

/-- A value has parts of the kind that a form describes. -/
inductive Fits : Form → Value → Prop where
  | leaf {keywords a} : Fits (.leaf keywords) (.scalar a)
  | fields {front ps back entries} : Fits (.fields front ps back) (.map entries)
  | listOf {g items} : Fits (.listOf g) (.list items)
  | tableOf {key element entries} : Fits (.tableOf key element) (.map entries)
  | mapping {front g entries} : Fits (.mapping front g) (.map entries)

/-- A value that meets a schema has parts of the kind that its form describes. -/
theorem Meets.fits (hmeets : Meets r scope s x) (hs : Stands s scope h f)
    (hplain : f.isPlain h = true) (hdirect : f.isDirect = true) : Fits f x := by
  have hobject (hmem : ("type", .str "object") ∈ f.keywords) : ∃ entries, x = .map entries :=
    ValueType.exists_map_of_holds (hmeets.holds_type hs hmem (t := .object) rfl)
  cases f with
  | leaf keywords =>
    obtain ⟨name, hname, hmem⟩ := mem_of_asksFor (Bool.and_eq_true_iff.mp hplain).2
    have htypes : ∀ name ∈ scalarTypes, ∃ t, ValueType.ofText? name = some t ∧
        t ≠ .array ∧ t ≠ .object := by decide
    obtain ⟨t, ht, harray, hother⟩ := htypes name hname
    obtain ⟨a, rfl⟩ := ValueType.exists_scalar_of_holds harray hother (hmeets.holds_type hs hmem ht)
    exact .leaf
  | fields front ps back =>
    have hasks := (Bool.and_eq_true_iff.mp (Bool.and_eq_true_iff.mp hplain).1).2
    obtain ⟨entries, rfl⟩ := hobject (type_object_mem hasks)
    exact .fields
  | listOf g =>
    have harray := hmeets.holds_type hs (t := .array) List.mem_cons_self rfl
    obtain ⟨items, rfl⟩ := ValueType.exists_list_of_holds harray
    exact .listOf
  | tableOf key element =>
    obtain ⟨entries, rfl⟩ := hobject List.mem_cons_self
    exact .tableOf
  | mapping front g =>
    obtain ⟨name, hname, hmem⟩ := mem_of_asksFor (Bool.and_eq_true_iff.mp hplain).2
    cases List.mem_singleton.mp hname
    obtain ⟨entries, rfl⟩ := hobject (List.mem_append_left _ hmem)
    exact .mapping
  | shared name => cases hdirect
  | own name => cases hdirect
  | oneOf ways => cases hdirect

/-- Each part of a value that has parts of the kind that a form describes is handed to a schema. -/
theorem Stands.exists_hands (hs : Stands s scope h f) (hplain : f.isPlain h = true)
    (hfits : Fits f x) {segment : Segment} (hstep : x.Step segment y) :
    ∃ inner, Hands s x inner [segment] y := by
  cases hfits with
  | leaf => cases hstep
  | listOf =>
    cases hstep with
    | item hitem =>
      obtain ⟨inner, hinner, _⟩ := hs.exists_entry (List.mem_cons_of_mem _ List.mem_cons_self)
      exact ⟨inner, .item List.mem_cons_self hinner hitem⟩
  | fields =>
    cases hstep with
    | entry hentry => exact hs.hands_field hplain hentry
  | tableOf =>
    cases hstep with
    | entry hentry =>
      exact hs.hands_additional hplain hentry (hs.undeclared_of_lookup hplain nofun)
        (List.mem_cons_of_mem _ (List.mem_cons_of_mem _ List.mem_cons_self))
  | mapping =>
    cases hstep with
    | entry hentry =>
      exact hs.hands_additional hplain hentry (hs.undeclared_of_lookup hplain nofun)
        (List.mem_append_right _ List.mem_cons_self)

end Stands

end BusinessModel.Schema.Bundled
