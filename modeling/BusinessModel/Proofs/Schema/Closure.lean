import BusinessModel.Proofs.Schema.Coverage
import BusinessModel.Proofs.Schema.Set

/-!
What the walk through the schemas of a set computes. The schemas that the document schemas lead to,
each with the name of the property by which it is reached, are closed under references and under the
keywords that hold schemas. The walk makes one visit for each schema and name, whatever way leads there,
and may do so where a reference means the same on every way.
-/

namespace BusinessModel

/-- The schemas that a set is to be made of. -/
structure SchemaSet.Draft where
  index : Value
  definitions : Value
  documents : List (String × Value)

/-- The address of a schema is a text. -/
theorem SchemaSet.get?_id_of_addressOf {v : Value} {address : String}
    (h : SchemaSet.addressOf v = .ok (some address)) : v.get? "$id" = some (.str address) := by
  unfold SchemaSet.addressOf at h
  split at h
  · next es =>
    obtain ⟨hid, _⟩ := Option.filter_eq_some_iff.mp (Except.ok.inj h)
    obtain ⟨x, hx, htext⟩ := Option.bind_eq_some_iff.mp hid
    rw [Value.get?, hx, Value.eq_of_str? htext]
  · cases h

theorem Schema.idOf?_of_get? {v : Value} {address : String} (hget : v.get? "$id" = some (.str address)) :
    idOf? v = .ok (some (Address.dropHashes address)) := by
  cases v with
  | map entries =>
    rw [Value.get?] at hget
    simp only [idOf?, hget]
  | _ => cases hget

namespace SchemaSet.Draft

open Schema Walk

/-- The address that a schema gives itself. -/
def ownAddress (v : Value) : String := ((v.get? "$id").getD .null).text

section Definitions

variable (d : Draft)

/-- The schemas by their addresses. -/
def schemas : List (String × Value) :=
  (labelled d.index d.definitions d.documents).map fun s => (ownAddress s.2, s.2)

/-- The registry that references between the schemas are followed in. -/
def registry : Registry := .ofSchemas d.schemas

/-- The addresses of the document schemas. -/
def addresses : List String := documentAddresses d.documents

/-- The address of the schema that a part stands in, number signs at the end not counted. -/
def home (s : Located) : String :=
  ((d.schemas[s.place.root]?).map fun e => Address.dropHashes e.1).getD ""

/-- What a reference in a schema leads to, seen from the address of the schema that it stands in. -/
def Refers (s : Located) (reference : String) (target : Located) : Prop :=
  ∃ scope, follow d.registry { base := d.home s } reference = .ok (target, scope)

/-- The schemas that the document schemas lead to, with the names of the properties by which they are
reached. -/
inductive Leads : Located → Option String → Prop where
  | document {i type v} : d.documents[i]? = some (type, v) → Leads ⟨v, ⟨i + 2, []⟩⟩ none
  | reference {s name target t} : Leads s name → s.value.get? "$ref" = some (.str target) →
      d.Refers s target t → Leads t name
  | inner {s name t name'} : Leads s name → Enters ⟨s, {}, name⟩ ⟨t, {}, name'⟩ → Leads t name'

/-- The walk is on solid ground: the addresses of the documents lead to them, a reference leads to one
schema on all ways to the schema that it stands in, and all schemas have the form that the walk asks
of them. -/
structure IsGrounded : Prop where
  document : ∀ {i : Nat} {type v}, d.documents[i]? = some (type, v) → ∃ scope,
    follow d.registry {} (ownAddress v) = .ok (⟨v, ⟨i + 2, []⟩⟩, scope) ∧
      scope.base = d.home ⟨v, ⟨i + 2, []⟩⟩
  reference : ∀ {s name reference}, d.Leads s name → s.value.get? "$ref" = some (.str reference) →
    ∃ t, ∀ scope : Scope, scope.base = d.home s → ∃ inner,
      follow d.registry scope reference = .ok (t, inner) ∧ inner.base = d.home t
  table : ∀ {s name keyword}, d.Leads s name → keyword ∈ ["properties", "patternProperties"] →
    ¬ LacksEntries ((s.get? keyword).map (·.value))
  list : ∀ {s name keyword}, d.Leads s name → keyword ∈ wayKeywords →
    ¬ LacksMembers ((s.get? keyword).map (·.value))
  about : ∀ {s name}, d.Leads s name → ¬ LacksEntries (s.value.get? "x-ubml")

end Definitions

variable {d : Draft}

/-- The document schemas stand behind the index and the shared definitions. -/
theorem getElem?_schemas {i : Nat} {type : String} {v : Value} (h : d.documents[i]? = some (type, v)) :
    d.schemas[i + 2]? = some (ownAddress v, v) := by
  simp [schemas, labelled, h]

theorem length_addresses_le : d.addresses.length ≤ d.schemas.length := by
  simp only [addresses, documentAddresses, schemas, labelled, List.length_map, List.length_cons]
  omega

theorem mem_addresses_iff {address : String} :
    address ∈ d.addresses ↔ ∃ (i : Nat) (type : String) (v : Value),
      d.documents[i]? = some (type, v) ∧ ownAddress v = address := by
  rw [addresses, documentAddresses, List.mem_map]
  constructor
  · rintro ⟨⟨type, v⟩, hmem, rfl⟩
    obtain ⟨i, hi⟩ := List.getElem?_of_mem hmem
    exact ⟨i, type, v, hi, rfl⟩
  · rintro ⟨i, type, v, hi, rfl⟩
    exact ⟨(type, v), List.mem_of_getElem? hi, rfl⟩

theorem home_eq {s : Located} {i : Nat} {address : String} {v : Value} (hroot : s.place.root = i)
    (h : d.schemas[i]? = some (address, v)) : d.home s = Address.dropHashes address := by
  rw [home, hroot, h]
  rfl

/-- What stands inside a schema has the same home. -/
theorem home_congr {s t : Located} (h : t.place.root = s.place.root) : d.home t = d.home s := by
  rw [home, home, h]


/-! ### Visits -/

/-- Where a walk goes on to does not depend on the scope. -/
theorem enters_iff {s : Located} {name : Option String} {scope : Scope} {w : Visit} :
    Enters ⟨s, scope, name⟩ w ↔ w.scope = scope ∧ Enters ⟨s, {}, name⟩ ⟨w.schema, {}, w.property⟩ := by
  constructor
  · intro h
    cases h with
    | property hinner hs => exact ⟨rfl, .property (v := ⟨s, {}, name⟩) hinner hs⟩
    | pattern hinner hs => exact ⟨rfl, .pattern (v := ⟨s, {}, name⟩) hinner hs⟩
    | items hinner hmap => exact ⟨rfl, .items (v := ⟨s, {}, name⟩) hinner hmap⟩
    | additional hinner hmap => exact ⟨rfl, .additional (v := ⟨s, {}, name⟩) hinner hmap⟩
    | way hkeyword hinner hs => exact ⟨rfl, .way (v := ⟨s, {}, name⟩) hkeyword hinner hs⟩
  · rintro ⟨rfl, h⟩
    obtain ⟨schema, scope, property⟩ := w
    cases h with
    | property hinner hs => exact .property (v := ⟨s, scope, name⟩) hinner hs
    | pattern hinner hs => exact .pattern (v := ⟨s, scope, name⟩) hinner hs
    | items hinner hmap => exact .items (v := ⟨s, scope, name⟩) hinner hmap
    | additional hinner hmap => exact .additional (v := ⟨s, scope, name⟩) hinner hmap
    | way hkeyword hinner hs => exact .way (v := ⟨s, scope, name⟩) hkeyword hinner hs

/-- What a walk goes on to is part of the same registered schema. -/
theorem root_of_enters {v w : Visit} (h : Enters v w) :
    w.schema.place.root = v.schema.place.root := by
  have hentry {inner : Located} {k : Value} {t : Located} (ht : (k, t) ∈ inner.entries) :
      t.place.root = inner.place.root := by
    obtain ⟨i, x, _, rfl⟩ := Located.mem_entries_iff.mp ht
    rfl
  cases h with
  | property hinner hs => exact (hentry hs).trans (Located.root_of_get? hinner)
  | pattern hinner hs => exact (hentry hs).trans (Located.root_of_get? hinner)
  | items hinner _ => exact Located.root_of_get? hinner
  | additional hinner _ => exact Located.root_of_get? hinner
  | way _ hinner hs =>
    obtain ⟨i, x, _, rfl⟩ := Located.mem_items_iff.mp hs
    have hroot := Located.root_of_get? hinner
    exact hroot

/-- What the document schemas lead to is a part of the schemas. -/
theorem Leads.isIn {s : Located} {name : Option String} (h : d.Leads s name) :
    s.IsIn (d.schemas.map (·.2)) := by
  induction h with
  | document hi => simp [Located.IsIn, Place.value?, getElem?_schemas hi]
  | reference _ _ ht _ =>
    obtain ⟨scope, hfollow⟩ := ht
    exact isIn_of_follow (Registry.isOver_ofSchemas d.schemas) hfollow
  | inner _ hw ih => exact isIn_of_enters ih hw

section Grounded

variable (hd : d.IsGrounded)

include hd

/-- A walk visits what the document schemas lead to, from the address of the schema that it stands
in. -/
theorem IsGrounded.leads_of_visits {v : Visit} (hv : Visits d.registry d.addresses v) :
    d.Leads v.schema v.property ∧ v.scope.base = d.home v.schema := by
  induction hv with
  | start haddress hfollow =>
    obtain ⟨i, type, v, hi, rfl⟩ := mem_addresses_iff.mp haddress
    obtain ⟨scope, hfollow', hscope⟩ := hd.document hi
    cases hfollow'.symm.trans hfollow
    exact ⟨.document hi, hscope⟩
  | @reference v target s scope _ htarget hfollow ih =>
    obtain ⟨hleads, hscope⟩ := ih
    obtain ⟨t, ht⟩ := hd.reference hleads htarget
    obtain ⟨inner, hfollow', hinner⟩ := ht v.scope hscope
    cases hfollow'.symm.trans hfollow
    obtain ⟨inner', hown, _⟩ := ht { base := d.home v.schema } rfl
    exact ⟨.reference hleads htarget ⟨inner', hown⟩, hinner⟩
  | @inner v w _ hw ih =>
    obtain ⟨hscope, henters⟩ := enters_iff.mp hw
    refine ⟨.inner ih.1 henters, ?_⟩
    rw [hscope, home_congr (root_of_enters hw)]
    exact ih.2

theorem IsGrounded.exists_visits {s : Located} {name : Option String} (hs : d.Leads s name) :
    ∃ scope, Visits d.registry d.addresses ⟨s, scope, name⟩ := by
  induction hs with
  | document hi =>
    obtain ⟨scope, hfollow, _⟩ := hd.document hi
    exact ⟨scope, .start (mem_addresses_iff.mpr ⟨_, _, _, hi, rfl⟩) hfollow⟩
  | @reference s name target t hs htarget ht ih =>
    obtain ⟨scope, hv⟩ := ih
    obtain ⟨own, hown⟩ := ht
    obtain ⟨t', ht'⟩ := hd.reference hs htarget
    obtain ⟨_, hfollow, _⟩ := ht' { base := d.home s } rfl
    cases hfollow.symm.trans hown
    obtain ⟨inner, hfollow, _⟩ := ht' scope (hd.leads_of_visits hv).2
    exact ⟨inner, .reference hv htarget hfollow⟩
  | inner _ hw ih =>
    obtain ⟨scope, hv⟩ := ih
    exact ⟨scope, .inner hv (enters_iff.mpr ⟨rfl, hw⟩)⟩

/-- Nothing keeps the walk from going on. -/
theorem IsGrounded.not_halts (e : Malformed) : ¬ Halts d.registry d.addresses e := by
  intro h
  cases h with
  | start haddress hfault =>
    obtain ⟨i, type, v, hi, rfl⟩ := mem_addresses_iff.mp haddress
    obtain ⟨scope, hfollow, _⟩ := hd.document hi
    cases hfollow.symm.trans hfault
  | @reference v target fault hv htarget hfault =>
    obtain ⟨hleads, hscope⟩ := hd.leads_of_visits hv
    obtain ⟨t, ht⟩ := hd.reference hleads htarget
    obtain ⟨inner, hfollow, _⟩ := ht v.scope hscope
    cases hfollow.symm.trans hfault
  | table hv hkeyword hlacks => exact hd.table (hd.leads_of_visits hv).1 hkeyword hlacks
  | list hv hkeyword hlacks => exact hd.list (hd.leads_of_visits hv).1 hkeyword hlacks
  | about hs hlacks =>
    obtain ⟨scope, hv, _⟩ := hs
    exact hd.about (hd.leads_of_visits hv).1 hlacks

theorem IsGrounded.exists_notes : ∃ notes, ofAddresses d.registry d.addresses = .ok notes := by
  cases h : ofAddresses d.registry d.addresses with
  | ok notes => exact ⟨notes, rfl⟩
  | error e => exact absurd ((ends_ofAddresses _ _).of_error h) (hd.not_halts e)

variable {notes : Notes} (hnotes : ofAddresses d.registry d.addresses = .ok notes)

include hnotes

/-- What the walk has seen has been visited in a way that has led on to all there is inside. -/
theorem IsGrounded.exists_visit_of_seen {s : Located} {name : Option String} (hs : d.Leads s name)
    (hseen : (s.place, name) ∈ notes.seen) : ∃ scope tasks, scope.base = d.home s ∧
      innerTasks ⟨s, scope, name⟩ = .ok tasks ∧
      ∀ t ∈ firstTasks ⟨s, scope, name⟩ ++ tasks, IsDone d.registry notes t := by
  obtain ⟨⟨s', scope, name'⟩, tasks, hv, hkey, htasks, hdone⟩ :=
    (ofAddresses_covers length_addresses_le hnotes).2 _ hseen
  obtain ⟨hplace, rfl⟩ := Prod.mk.inj hkey
  obtain ⟨_, hv'⟩ := hd.exists_visits hs
  -- the place tells the schema
  have hover := Registry.isOver_ofSchemas d.schemas
  have hvalue := (mem_propertyNames hover hv).1.value_eq (mem_propertyNames hover hv').1 hplace
  have heq : s' = s := by
    cases s'
    cases s
    cases hplace
    cases hvalue
    rfl
  subst heq
  exact ⟨scope, tasks, (hd.leads_of_visits hv).2, htasks, hdone⟩

/-- What the document schemas lead to has been seen under its name. -/
theorem IsGrounded.mem_seen {s : Located} {name : Option String} (hs : d.Leads s name)
    (hmap : s.value.isMap = true) : (s.place, name) ∈ notes.seen := by
  have hmap_of_get? {s : Located} {keyword : String} {v : Value}
      (h : s.value.get? keyword = some v) : s.value.isMap = true := by
    unfold Value.get? at h
    split at h
    · next hvalue => rw [hvalue]; rfl
    · cases h
  induction hs with
  | @document i type v hi =>
    obtain ⟨scope, hfollow, _⟩ := hd.document hi
    obtain ⟨s, scope', hfollow', hseen⟩ := (ofAddresses_covers length_addresses_le hnotes).1 _
      (mem_addresses_iff.mpr ⟨i, type, v, hi, rfl⟩)
    cases hfollow.symm.trans hfollow'
    exact hseen hmap
  | @reference s name target t hs htarget ht ih =>
    obtain ⟨scope, tasks, hscope, _, hdone⟩ :=
      hd.exists_visit_of_seen hnotes hs (ih (hmap_of_get? htarget))
    have htask : Task.follow ⟨s, scope, name⟩ target ∈ firstTasks ⟨s, scope, name⟩ := by
      simp [firstTasks, htarget]
    obtain ⟨t', inner, hfollow, hseen⟩ := hdone _ (List.mem_append_left _ htask)
    obtain ⟨own, hown⟩ := ht
    obtain ⟨t'', ht''⟩ := hd.reference hs htarget
    obtain ⟨_, hfollow', _⟩ := ht'' scope hscope
    obtain ⟨_, hown', _⟩ := ht'' { base := d.home s } rfl
    cases hfollow'.symm.trans hfollow
    cases hown'.symm.trans hown
    exact hseen hmap
  | @inner s name t name' hs hw ih =>
    have hsource : s.value.isMap = true := by
      cases hw with
      | property hinner _ => exact hmap_of_get? (Located.value_of_get? hinner)
      | pattern hinner _ => exact hmap_of_get? (Located.value_of_get? hinner)
      | items hinner _ => exact hmap_of_get? (Located.value_of_get? hinner)
      | additional hinner _ => exact hmap_of_get? (Located.value_of_get? hinner)
      | way _ hinner _ => exact hmap_of_get? (Located.value_of_get? hinner)
    obtain ⟨scope, tasks, _, htasks, hdone⟩ := hd.exists_visit_of_seen hnotes hs (ih hsource)
    have hw : Enters ⟨s, scope, name⟩ ⟨t, scope, name'⟩ := enters_iff.mpr ⟨rfl, hw⟩
    exact hdone _ (List.mem_append_right _ (mem_innerTasks htasks hw)) hmap

/-- What the walk notes of the properties stands in the schemas that they lead to. -/
theorem IsGrounded.mem_fields_iff {name letters : String} : ⟨name, letters⟩ ∈ notes.fields ↔
    name ≠ "id" ∧ ∃ s, d.Leads s (some name) ∧ lettersOf s.value = some letters := by
  constructor
  · intro hmem
    obtain ⟨s, ⟨scope, hv, hid⟩, hletters⟩ :=
      ((ends_ofAddresses _ _).of_ok hnotes).fields _ hmem
    exact ⟨hid, s, (hd.leads_of_visits hv).1, hletters⟩
  · rintro ⟨hid, s, hs, hletters⟩
    have hmap : s.value.isMap = true := by
      cases hvalue : s.value with
      | map entries => rfl
      | scalar x => simp [hvalue, lettersOf, Value.get?, Block.entries, Value.lookup] at hletters
      | list items => simp [hvalue, lettersOf, Value.get?, Block.entries, Value.lookup] at hletters
    obtain ⟨scope, tasks, _, _, hdone⟩ :=
      hd.exists_visit_of_seen hnotes hs (hd.mem_seen hnotes hs hmap)
    have htask : Task.note s name ∈ firstTasks ⟨s, scope, some name⟩ := by
      simp [firstTasks, isNoted, hid]
    exact hdone _ (List.mem_append_left _ htask) letters hletters

end Grounded

end SchemaSet.Draft

end BusinessModel
