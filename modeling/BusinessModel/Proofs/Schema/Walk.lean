import BusinessModel.Proofs.Schema.Block

/-!
The walk through schemas. What it visits are the schemas that the addresses of the document types
lead to, those that their references lead to, and those inside them, each with the property name that
it is reached by. It ends early where a reference cannot be followed, or where a visited schema does
not have the form that the walk asks of it.
-/

namespace BusinessModel.Schema

namespace Walk

/-- The keywords for several ways to meet a schema. -/
def wayKeywords : List String := ["oneOf", "anyOf", "allOf"]

/-- From a visited schema the walk goes on to a schema inside it. -/
inductive Enters (v : Visit) : Visit → Prop where
  | property {inner name s} : v.schema.get? "properties" = some inner → (name, s) ∈ inner.entries →
      Enters v { v with schema := s, property := some name.text }
  | pattern {inner name s} : v.schema.get? "patternProperties" = some inner →
      (name, s) ∈ inner.entries → Enters v { v with schema := s, property := none }
  | items {inner} : v.schema.get? "items" = some inner → inner.value.isMap = true →
      Enters v { v with schema := inner }
  | additional {inner} : v.schema.get? "additionalProperties" = some inner →
      inner.value.isMap = true → Enters v { v with schema := inner, property := none }
  | way {keyword inner s} : keyword ∈ wayKeywords → v.schema.get? keyword = some inner →
      s ∈ inner.items → Enters v { v with schema := s }

/-- What a walk from the addresses visits. -/
inductive Visits (registry : Registry) (addresses : List String) : Visit → Prop where
  | start {address s scope} : address ∈ addresses → follow registry {} address = .ok (s, scope) →
      Visits registry addresses ⟨s, scope, none⟩
  | reference {v target s scope} : Visits registry addresses v →
      v.schema.value.get? "$ref" = some (.str target) →
      follow registry v.scope target = .ok (s, scope) →
      Visits registry addresses ⟨s, scope, v.property⟩
  | inner {v w} : Visits registry addresses v → Enters v w → Visits registry addresses w

/-- The walk takes notes on a schema, for a property name other than that of an identifier. -/
def TakesNotes (registry : Registry) (addresses : List String) (s : Located) (property : String) :
    Prop :=
  ∃ scope, Visits registry addresses ⟨s, scope, some property⟩ ∧ property ≠ "id"

variable {registry : Registry} {addresses : List String}

/-- A task that the walk has come to. -/
inductive IsDue (registry : Registry) (addresses : List String) : Task → Prop where
  | visit {v} : Visits registry addresses v → IsDue registry addresses (.visit v)
  | start {schema address} : address ∈ addresses →
      IsDue registry addresses (.follow ⟨schema, {}, none⟩ address)
  | follow {v target} : Visits registry addresses v →
      v.schema.value.get? "$ref" = some (.str target) →
      IsDue registry addresses (.follow v target)
  | note {s property} : TakesNotes registry addresses s property →
      IsDue registry addresses (.note s property)

theorem IsDue.visits {v : Visit} (h : IsDue registry addresses (.visit v)) :
    Visits registry addresses v := by
  cases h with
  | visit hv => exact hv

/-- What a reference leads to is visited. -/
theorem IsDue.visit_of_follow {v : Visit} {reference : String} {s : Located} {scope : Scope}
    (h : IsDue registry addresses (.follow v reference))
    (hfollow : Schema.follow registry v.scope reference = .ok (s, scope)) :
    IsDue registry addresses (.visit ⟨s, scope, v.property⟩) := by
  cases h with
  | start haddress => exact .visit (.start haddress hfollow)
  | follow hv htarget => exact .visit (.reference hv htarget hfollow)

/-- What makes the walk end early: a reference that leads nowhere, or a visited schema with something
else where it holds schemas or says what it is about. -/
inductive Halts (registry : Registry) (addresses : List String) : Malformed → Prop where
  | start {address fault} : address ∈ addresses → follow registry {} address = .error fault →
      Halts registry addresses (.reference fault)
  | reference {v target fault} : Visits registry addresses v →
      v.schema.value.get? "$ref" = some (.str target) →
      follow registry v.scope target = .error fault →
      Halts registry addresses (.reference fault)
  | table {v keyword} : Visits registry addresses v →
      keyword ∈ ["properties", "patternProperties"] →
      LacksEntries ((v.schema.get? keyword).map (·.value)) → Halts registry addresses .noEntries
  | list {v keyword} : Visits registry addresses v → keyword ∈ wayKeywords →
      LacksMembers ((v.schema.get? keyword).map (·.value)) → Halts registry addresses .wrongType
  | about {s property} : TakesNotes registry addresses s property →
      LacksEntries (s.value.get? "x-ubml") → Halts registry addresses .noEntries

/-- The letters of the identifiers that a schema refers to; a star stands for all letters. -/
def lettersOf (schema : Value) : Option String :=
  match Block.entries (schema.get? "x-ubml") with
  | .ok about =>
    if ((Value.lookup "anyReference" about).map Value.isSet).getD false then some anyKind
    else (Value.lookup "prefix" about).map Value.text
  | .error _ => none

/-- What is noted stands in schemas that the walk takes notes on. -/
structure AreSound (registry : Registry) (addresses : List String) (notes : Notes) : Prop where
  choices : ∀ c ∈ notes.choices, TakesNotes registry addresses c.1 c.2
  fields : ∀ f ∈ notes.fields, ∃ s, TakesNotes registry addresses s f.property ∧
    lettersOf s.value = some f.letters

theorem ends_named (s : Located) (keyword : String) :
    Ends (fun e => e = .noEntries ∧ LacksEntries ((s.get? keyword).map (·.value)))
      (fun found => ∀ x ∈ found, ∃ inner, s.get? keyword = some inner ∧ x ∈ inner.entries)
      (named s keyword) := by
  unfold named
  cases hinner : s.get? keyword with
  | none => exact .ok (by simp)
  | some inner =>
    dsimp only
    split
    · exact .ok fun x hx => ⟨inner, rfl, hx⟩
    · next v hmap =>
      split
      · next hset =>
        refine .error ⟨rfl, inner.value, rfl, hset, ?_⟩
        cases hvalue : inner.value with
        | map es => exact absurd hvalue (hmap es)
        | _ => rfl
      · exact .ok (by simp)

theorem ends_listed (s : Located) (keyword : String) :
    Ends (fun e => e = .wrongType ∧ LacksMembers ((s.get? keyword).map (·.value)))
      (fun found => ∀ x ∈ found, ∃ inner, s.get? keyword = some inner ∧ x ∈ inner.items)
      (listed s keyword) := by
  unfold listed
  cases hinner : s.get? keyword with
  | none => exact .ok (by simp)
  | some inner =>
    dsimp only
    split
    · exact .ok fun x hx => ⟨inner, rfl, hx⟩
    · exact .ok (by simp)
    · exact .ok (by simp)
    · next v hlist hstr hmap =>
      split
      · next hset =>
        refine .error ⟨rfl, inner.value, rfl, hset, ?_⟩
        cases hvalue : inner.value with
        | map es => exact absurd hvalue (hmap es)
        | list vs => exact absurd hvalue (hlist vs)
        | scalar x =>
          cases x with
          | str text => exact absurd hvalue (hstr text)
          | _ => rfl
      · exact .ok (by simp)

theorem isDue_firstTasks {v : Visit} (hv : Visits registry addresses v) :
    ∀ t ∈ firstTasks v, IsDue registry addresses t := by
  intro t ht
  rcases List.mem_append.mp ht with ht | ht
  · split at ht
    · next target htarget =>
      cases List.mem_singleton.mp ht
      exact .follow hv htarget
    · cases ht
  · obtain ⟨schema, scope, property⟩ := v
    obtain ⟨name, hname, rfl⟩ := List.mem_map.mp ht
    obtain ⟨hproperty, hid⟩ := Option.filter_eq_some_iff.mp (Option.mem_toList.mp hname)
    cases hproperty
    exact .note ⟨scope, hv, by simpa using hid⟩

theorem ends_innerTasks {v : Visit} (hv : Visits registry addresses v) :
    Ends (Halts registry addresses) (fun ts => ∀ t ∈ ts, IsDue registry addresses t)
      (innerTasks v) := by
  have htable {keyword : String} (hkeyword : keyword ∈ ["properties", "patternProperties"])
      (e : Malformed)
      (he : e = .noEntries ∧ LacksEntries ((v.schema.get? keyword).map (·.value))) :
      Halts registry addresses e := he.1 ▸ .table hv hkeyword he.2
  have hheld {keyword : String} {inner : Located} (h : inner ∈ held v.schema keyword) :
      v.schema.get? keyword = some inner ∧ inner.value.isMap = true := by
    unfold held at h
    cases hget : v.schema.get? keyword with
    | none => simp [hget] at h
    | some found =>
      simp only [hget] at h
      split at h
      · next hmap =>
        cases List.mem_singleton.mp h
        exact ⟨rfl, hmap⟩
      · cases h
  refine .bind ((ends_named ..).mono (htable (by simp)) fun _ h => h) fun properties hproperties => ?_
  refine .bind ((ends_named ..).mono (htable (by simp)) fun _ h => h) fun patterns hpatterns => ?_
  refine .bind (.mapM (R := fun found => ∀ x ∈ found, IsDue registry addresses
    (.visit { v with schema := x })) fun keyword hkeyword => ?_) fun ways hways => .ok ?_
  · refine (ends_listed ..).mono (fun e he => he.1 ▸ .list hv hkeyword he.2) fun found h x hx => ?_
    obtain ⟨inner, hinner, hitem⟩ := h x hx
    exact .visit (.inner hv (.way hkeyword hinner hitem))
  · intro t ht
    simp only [List.mem_append, List.mem_map] at ht
    obtain ((((⟨⟨name, x⟩, hx, rfl⟩ | ⟨⟨name, x⟩, hx, rfl⟩) | ⟨x, hx, rfl⟩) | ⟨x, hx, rfl⟩) |
      ⟨x, hx, rfl⟩) := ht
    · obtain ⟨inner, hinner, hentry⟩ := hproperties _ hx
      exact .visit (.inner hv (.property hinner hentry))
    · obtain ⟨inner, hinner, hentry⟩ := hpatterns _ hx
      exact .visit (.inner hv (.pattern hinner hentry))
    · exact .visit (.inner hv (.items (hheld hx).1 (hheld hx).2))
    · exact .visit (.inner hv (.additional (hheld hx).1 (hheld hx).2))
    · obtain ⟨found, hfound, hx⟩ := List.mem_flatten.mp hx
      exact hways found hfound x hx

/-- After a visit, the tasks that it leads to are due besides those that were due before. -/
theorem isDue_tasks {v : Visit} (hv : Visits registry addresses v) {inner rest : List Task}
    (hinner : ∀ t ∈ inner, IsDue registry addresses t)
    (hrest : ∀ t ∈ rest, IsDue registry addresses t) :
    ∀ t ∈ firstTasks v ++ inner ++ rest, IsDue registry addresses t := by
  intro t ht
  rcases List.mem_append.mp ht with ht | ht
  · rcases List.mem_append.mp ht with ht | ht
    · exact isDue_firstTasks hv t ht
    · exact hinner t ht
  · exact hrest t ht

/-- A note adds the letters that the schema refers to, and the schema if it is a choice. -/
theorem noteOn_eq_ok {s : Located} {property : String} {notes notes' : Notes}
    (h : noteOn s property notes = .ok notes') :
    notes' = { notes with
      fields := ((lettersOf s.value).map fun letters => ⟨property, letters⟩).toList ++ notes.fields
      choices := (if s.value.has "enum" then [(s, property)] else []) ++ notes.choices } := by
  obtain ⟨about, habout, h⟩ := bind_eq_ok_iff.mp h
  have hletters : lettersOf s.value =
      if ((Value.lookup "anyReference" about).map Value.isSet).getD false then some anyKind
      else (Value.lookup "prefix" about).map Value.text := by
    rw [lettersOf, habout]
  rw [← hletters] at h
  cases hfound : lettersOf s.value with
  | none =>
    simp only [hfound] at h
    split at h
    · next henum =>
      cases h
      simp [henum]
    · next henum =>
      cases h
      simp [henum]
  | some letters =>
    simp only [hfound] at h
    split at h
    · next henum =>
      cases h
      simp [henum]
    · next henum =>
      cases h
      simp [henum]

theorem ends_noteOn {s : Located} {property : String} (hs : TakesNotes registry addresses s property)
    {notes : Notes} (hnotes : AreSound registry addresses notes) :
    Ends (Halts registry addresses) (AreSound registry addresses) (noteOn s property notes) := by
  constructor
  · intro e he
    rcases bind_eq_error_iff.mp he with habout | ⟨about, _, h⟩
    · obtain ⟨rfl, hlacks⟩ := (Block.ends_entries _).of_error habout
      exact .about hs hlacks
    · -- what follows succeeds, with or without letters and a choice
      split at h
      all_goals
        split at h
        all_goals cases h
  · intro notes' hok
    rw [noteOn_eq_ok hok]
    constructor
    · intro c hc
      rcases List.mem_append.mp hc with hc | hc
      · split at hc
        · rw [List.mem_singleton.mp hc]
          exact hs
        · cases hc
      · exact hnotes.choices c hc
    · intro f hf
      rcases List.mem_append.mp hf with hf | hf
      · obtain ⟨letters, hletters, rfl⟩ := Option.map_eq_some_iff.mp (Option.mem_toList.mp hf)
        exact ⟨s, hs, hletters⟩
      · exact hnotes.fields f hf

/-- Whatever the walk comes to is due, so it halts only where it may. -/
theorem ends_run (fuel : Nat) : ∀ (tasks : List Task) (notes : Notes),
    (∀ t ∈ tasks, IsDue registry addresses t) → AreSound registry addresses notes →
    Ends (Halts registry addresses) (AreSound registry addresses)
      (run registry fuel tasks notes) := by
  induction fuel with
  | zero => exact fun _ _ _ hnotes => .ok hnotes
  | succ fuel ih =>
    intro tasks notes htasks hnotes
    cases tasks with
    | nil => exact .ok hnotes
    | cons task rest =>
      have hrest : ∀ t ∈ rest, IsDue registry addresses t :=
        fun t ht => htasks t (List.mem_cons_of_mem _ ht)
      cases htasks task List.mem_cons_self with
      | @note s property hs =>
        exact .bind (ends_noteOn hs hnotes) fun notes hnotes => ih _ _ hrest hnotes
      | @start schema address haddress =>
        rw [run]
        cases hfollow : follow registry {} address with
        | error fault => exact .error (.start haddress hfollow)
        | ok target =>
          refine ih _ _ (List.forall_mem_cons.mpr ⟨?_, hrest⟩) hnotes
          exact .visit (.start haddress hfollow)
      | @follow v target hv htarget =>
        rw [run]
        cases hfollow : follow registry v.scope target with
        | error fault => exact .error (.reference hv htarget hfollow)
        | ok found =>
          refine ih _ _ (List.forall_mem_cons.mpr ⟨?_, hrest⟩) hnotes
          exact .visit (.reference hv htarget hfollow)
      | @visit v hv =>
        rw [run]
        split
        · exact ih _ _ hrest hnotes
        · refine .bind (ends_innerTasks hv) fun inner hinner =>
            ih _ _ (isDue_tasks hv hinner hrest) ⟨hnotes.choices, hnotes.fields⟩

theorem ends_ofAddresses (registry : Registry) (addresses : List String) :
    Ends (Halts registry addresses) (AreSound registry addresses)
      (ofAddresses registry addresses) := by
  refine ends_run _ _ _ (fun t ht => ?_) ⟨nofun, nofun⟩
  obtain ⟨address, haddress, rfl⟩ := List.mem_map.mp ht
  exact .start haddress

end Walk

/-! ### The properties that refer to elements -/

namespace Notes

variable {notes : Notes} {name letters : String}

theorem mem_distinct {xs : List String} {x : String} : x ∈ distinct xs ↔ x ∈ xs := by
  have hfold (seen : List String) : x ∈ xs.foldl (fun seen x => if seen.contains x then seen
      else x :: seen) seen ↔ x ∈ seen ∨ x ∈ xs := by
    induction xs generalizing seen with
    | nil => simp
    | cons y rest ih =>
      rw [List.foldl_cons, ih]
      split
      · next hcontains =>
        have hy : y ∈ seen := List.contains_iff_mem.mp hcontains
        rw [List.mem_cons]
        refine ⟨Or.imp_right .inr, ?_⟩
        rintro (hx | rfl | hx)
        · exact .inl hx
        · exact .inl hy
        · exact .inr hx
      · rw [List.mem_cons, List.mem_cons]
        tauto
  rw [distinct, List.mem_reverse, hfold]
  simp

theorem lookup_map {α : Type} {names : List String} {f : String → α} :
    (names.map fun name => (name, f name)).lookup name =
      if name ∈ names then some (f name) else none := by
  induction names with
  | nil => rfl
  | cons n rest ih =>
    rw [List.map_cons, List.lookup_cons, ih]
    by_cases h : name = n
    · simp [h]
    · simp [h, beq_eq_false_iff_ne.mpr h]

/-- The letters that are noted for a property. -/
def lettersFor (notes : Notes) (name : String) : List String :=
  (notes.fields.filter (·.property == name)).map (·.letters)

theorem mem_lettersFor : letters ∈ notes.lettersFor name ↔ ⟨name, letters⟩ ∈ notes.fields := by
  simp only [lettersFor, List.mem_map, List.mem_filter, beq_iff_eq]
  constructor
  · rintro ⟨f, ⟨hf, rfl⟩, rfl⟩
    exact hf
  · intro h
    exact ⟨_, ⟨h, rfl⟩, rfl⟩

theorem lookup_referenceFields : notes.referenceFields.lookup name =
    if name ∈ notes.fields.map (·.property) then
      some (if (notes.lettersFor name).contains Walk.anyKind then []
        else (distinct (notes.lettersFor name)).mergeSort fun a b => a ≤ b)
    else none := by
  refine lookup_map.trans (if_congr ?_ rfl rfl)
  rw [List.mem_mergeSort, mem_distinct]

theorem mem_properties_iff :
    name ∈ notes.fields.map (·.property) ↔ ∃ letters, ⟨name, letters⟩ ∈ notes.fields := by
  rw [List.mem_map]
  constructor
  · rintro ⟨f, hf, rfl⟩
    exact ⟨f.letters, hf⟩
  · rintro ⟨letters, hf⟩
    exact ⟨_, hf, rfl⟩

/-- A property refers to elements if letters are noted for it. -/
theorem isSome_lookup_referenceFields :
    (notes.referenceFields.lookup name).isSome = true ↔
      ∃ letters, ⟨name, letters⟩ ∈ notes.fields := by
  rw [lookup_referenceFields, ← mem_properties_iff]
  split
  · next h => exact iff_of_true rfl h
  · next h => exact iff_of_false (by simp) h

/-- A property accepts the letters that are noted for it, and all where a star is. -/
theorem accepts_of_mem_fields (hf : ⟨name, letters⟩ ∈ notes.fields) {accepted : List String}
    (h : notes.referenceFields.lookup name = some accepted) :
    accepted = [] ∨ letters ≠ Walk.anyKind ∧ letters ∈ accepted := by
  rw [lookup_referenceFields, if_pos (mem_properties_iff.mpr ⟨letters, hf⟩)] at h
  split at h
  · exact .inl (Option.some.inj h).symm
  · next hany =>
    rw [List.contains_iff_mem, mem_lettersFor] at hany
    refine .inr ⟨fun heq => hany (heq ▸ hf), ?_⟩
    rw [← Option.some.inj h, List.mem_mergeSort, mem_distinct, mem_lettersFor]
    exact hf

/-- A property that does not accept all letters accepts those that are noted for it. -/
theorem mem_accepted_iff (hany : ⟨name, Walk.anyKind⟩ ∉ notes.fields) {accepted : List String}
    (h : notes.referenceFields.lookup name = some accepted) :
    letters ∈ accepted ↔ ⟨name, letters⟩ ∈ notes.fields := by
  rw [lookup_referenceFields] at h
  split at h
  · rw [← mem_lettersFor] at hany
    rw [if_neg (by simpa using hany)] at h
    rw [← Option.some.inj h, List.mem_mergeSort, mem_distinct, mem_lettersFor]
  · cases h

end Notes

end BusinessModel.Schema
