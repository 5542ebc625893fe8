import BusinessModel.Proofs.Schema.Bundled.Descent
import BusinessModel.Proofs.Schema.Coverage

/-!
The walk through the bundled schemas: it comes to each form of the schemas of the document types, by
the name of the property that leads there, and notes the letters in it.
-/

namespace BusinessModel.Schema.Bundled

open Walk

/-- The property name by which a walk goes on after a turn. -/
def Turn.name (name : Option String) : Turn → Option String
  | field name => some name
  | item | way => name
  | entry => none

/-- The property name by which a walk along turns comes to a schema. -/
def nameAfter (turns : List Turn) : Option String := turns.foldl Turn.name none

theorem nameAfter_append (turns : List Turn) (turn : Turn) :
    nameAfter (turns ++ [turn]) = turn.name (nameAfter turns) := by
  rw [nameAfter, List.foldl_append]
  rfl

/-- The addresses of the schemas of the document types. -/
def addresses : List String := documents.map fun d => (Home.document d).address

theorem length_addresses_le : addresses.length ≤ addressedSchemas.length := by
  simp only [addresses, addressedSchemas, homes, List.length_cons, List.length_map]
  omega

theorem all_isFragmentless : documents.all (fun d => !d.type.toList.contains '#') = true := by
  decide

/-- An address of a document schema has no fragment. -/
theorem resolve_address {d : DocumentSchema} (hd : d ∈ documents) :
    ({} : Scope).resolve (Home.document d).address = ((Home.document d).address, "") := by
  have hchars : (Home.document d).address.toList = "https://ubml.io/schemas/1.0/".toList ++
      ("documents/".toList ++ d.type.toList ++ ".document.yaml".toList) := by
    simp only [Home.address, Home.path, baseAddress, String.toList_append]
  have htype := List.all_eq_true.mp all_isFragmentless d hd
  have hnone : (Home.document d).address.toList.contains '#' = false := by
    rw [hchars]
    simpa using htype
  have hfirst : (Home.document d).address.toList.head? = some 'h' := by
    rw [hchars]
    rfl
  unfold Scope.resolve
  split
  · next heq =>
    rw [heq] at hfirst
    cases hfirst
  · rw [Address.join, if_pos (by decide), Address.splitFragment, hnone, if_neg Bool.false_ne_true]

/-- The address of the schema of a document type leads to it. -/
theorem exists_follow_address {r : Registry} (hr : Knows r) {d : DocumentSchema}
    (hd : d ∈ documents) : ∃ s scope, follow r {} (Home.document d).address = .ok (s, scope) ∧
      Stands s scope (.document d) d.form := by
  obtain ⟨i, hi⟩ := List.getElem?_of_mem hd
  have hhome : homes[i + 1]? = some (.document d) := by
    rw [homes, List.getElem?_cons_succ, List.getElem?_map, hi]
    rfl
  exact ⟨_, _, follow_root (resolve_address hd) (hr _ _ hhome), rfl, rfl, i + 1, hhome, rfl⟩

/-- Whether the schemas of all document types are tidy. -/
def AreTidy : Prop := ∀ d ∈ documents, ∃ depth,
  d.form.all (fun _ h f => f.isTidy h) depth [] (.document d) = true

theorem Reaches.isTidy (htidy : AreTidy) {d : DocumentSchema} (hd : d ∈ documents)
    {turns : List Turn} {h : Home} {f : Form} (hf : Reaches d turns h f) : f.isTidy h = true := by
  obtain ⟨depth, hall⟩ := htidy d hd
  exact hf.of_all hall

section Visits

variable {r : Registry} (hr : Knows r) (htidy : AreTidy) {v w : Visit} {h : Home} {f : Form}

/-- From the schema for a form the walk goes on to schemas for forms inside it. -/
theorem Stands.of_enters (hs : Stands v.schema v.scope h f) (hf : f.isTidy h = true)
    (hw : Enters v w) : ∃ turn, Opens w.scope h f turn w.schema ∧
      w.property = turn.name v.property := by
  have hnone {keyword : String} {argument : Located}
      (hmem : (.str keyword, argument) ∈ v.schema.entries)
      (hkeyword : keyword ∉ inertKeywords ++ formKeywords) : False :=
    hkeyword (hs.keyword_mem (Bool.and_eq_true_iff.mp hf).1 hmem)
  cases hw with
  | property hinner hs' =>
    obtain ⟨name, rfl, hopens⟩ := hs.opens_property hf (Located.mem_of_get? hinner) hs'
    exact ⟨.field name, hopens, rfl⟩
  | pattern hinner _ => exact (hnone (Located.mem_of_get? hinner) (by decide)).elim
  | items hinner _ => exact ⟨.item, hs.opens_items hf (Located.mem_of_get? hinner), rfl⟩
  | additional hinner hmap =>
    rcases hs.opens_additional hf (Located.mem_of_get? hinner) with hfalse | hopens
    · rw [hfalse] at hmap
      cases hmap
    · exact ⟨.entry, hopens, rfl⟩
  | @way keyword _ _ hkeyword hinner hs' =>
    have hkeyword' : keyword ∈ ["allOf", "anyOf", "oneOf"] := by
      simpa [wayKeywords, or_comm, or_assoc, or_left_comm] using hkeyword
    exact ⟨.way, hs.opens_way hf hkeyword' (Located.mem_of_get? hinner) hs', rfl⟩

/-- What the schema for a plain form has at a keyword. -/
theorem Stands.exists_get? {s : Located} {scope : Scope} (hs : Stands s scope h f)
    (hplain : f.isPlain h = true) {keyword : String} (hkeyword : keyword ∈ formKeywords)
    {value : Value} (hmem : (keyword, value) ∈ f.keywords) :
    ∃ inner, s.get? keyword = some inner ∧ inner.value = value ∧
      inner.place.root = s.place.root := by
  have hlookup : f.keywords.lookup keyword = some value := by
    cases hlookup : f.keywords.lookup keyword with
    | none =>
      have hne := List.lookup_eq_none_iff.mp hlookup _ hmem
      simp at hne
    | some x =>
      have hx := Form.holds_of_mem hplain (mem_of_lookup hlookup)
      rw [hx.unique hkeyword (Form.holds_of_mem hplain hmem)]
  rw [← Value.get?_object, ← f.value_eq, ← hs.value_eq] at hlookup
  obtain ⟨inner, hinner, hvalue⟩ := Located.exists_get? hlookup
  exact ⟨inner, hinner, hvalue, Located.root_of_get? hinner⟩

/-- From the schema for a form the walk goes on to those for all forms inside it. -/
theorem Stands.exists_enters (hs : Stands v.schema v.scope h f) (hplain : f.isPlain h = true)
    {turn : Turn} {h' : Home} {g : Form} (hg : (some turn, h', g) ∈ f.inner h) :
    ∃ w, Enters v w ∧ Stands w.schema w.scope h' g ∧ w.property = turn.name v.property := by
  have hmap {inner : Located} {g : Form} (hvalue : inner.value = g.value) :
      inner.value.isMap = true := by
    rw [hvalue, g.value_eq]
    rfl
  cases f with
  | leaf keywords => cases hg
  | fields front ps back =>
    obtain ⟨e, he, heq⟩ := List.mem_map.mp hg
    cases heq
    obtain ⟨inner, hinner, hvalue, hroot⟩ := hs.exists_get? hplain (by decide)
      (List.mem_append_right front List.mem_cons_self)
    obtain ⟨i, hi⟩ := List.getElem?_of_mem he
    have hentry : (.str e.1, inner.part i e.2.value) ∈ inner.entries := by
      refine Located.mem_entries_iff.mpr ⟨i, _, ?_, rfl⟩
      rw [hvalue, Form.namedValues_eq]
      simp [Value.object, Value.entries, hi]
    exact ⟨_, .property hinner hentry, hs.inside rfl hroot, rfl⟩
  | listOf f =>
    cases List.mem_singleton.mp hg
    obtain ⟨inner, hinner, hvalue, hroot⟩ := hs.exists_get? hplain (by decide)
      (List.mem_cons_of_mem _ List.mem_cons_self)
    exact ⟨_, .items hinner (hmap hvalue), hs.inside hvalue hroot, rfl⟩
  | tableOf key element =>
    cases List.mem_singleton.mp hg
    obtain ⟨inner, hinner, hvalue, hroot⟩ := hs.exists_get? hplain (by decide)
      (List.mem_cons_of_mem _ (List.mem_cons_of_mem _ List.mem_cons_self))
    exact ⟨_, .additional hinner (hmap (g := .own element) hvalue), hs.inside hvalue hroot, rfl⟩
  | mapping front f =>
    cases List.mem_singleton.mp hg
    obtain ⟨inner, hinner, hvalue, hroot⟩ := hs.exists_get? hplain (by decide)
      (List.mem_append_right front List.mem_cons_self)
    exact ⟨_, .additional hinner (hmap hvalue), hs.inside hvalue hroot, rfl⟩
  | shared name =>
    obtain ⟨_, _, heq⟩ := Option.map_eq_some_iff.mp (Option.mem_toList.mp hg)
    cases heq
  | own name =>
    obtain ⟨_, _, heq⟩ := Option.map_eq_some_iff.mp (Option.mem_toList.mp hg)
    cases heq
  | oneOf ways =>
    obtain ⟨g, hmem, heq⟩ := List.mem_map.mp hg
    cases heq
    obtain ⟨inner, hinner, hvalue, hroot⟩ := hs.exists_get? hplain (by decide) List.mem_cons_self
    obtain ⟨i, hi⟩ := List.getElem?_of_mem hmem
    have hitem : inner.part i g.value ∈ inner.items := by
      refine Located.mem_items_iff.mpr ⟨i, _, ?_, rfl⟩
      rw [hvalue, Form.listedValues_eq]
      simp [Value.items, hi]
    exact ⟨_, .way List.mem_cons_self hinner hitem, hs.inside rfl hroot, rfl⟩

include hr htidy

/-- The walk visits only schemas for forms that the schemas of the document types lead to. -/
theorem exists_reaches_of_visits (hv : Visits r addresses v) : ∃ d ∈ documents, ∃ turns h f,
    Reaches d turns h f ∧ Stands v.schema v.scope h f ∧ v.property = nameAfter turns := by
  induction hv with
  | start haddress hfollow =>
    obtain ⟨d, hd, rfl⟩ := List.mem_map.mp haddress
    obtain ⟨s, scope, hfollow', hs⟩ := exists_follow_address hr hd
    cases hfollow'.symm.trans hfollow
    exact ⟨d, hd, [], _, _, .root, hs, rfl⟩
  | @reference v reference s scope _ hreference hfollow ih =>
    obtain ⟨d, hd, turns, h, f, hreaches, hs, hname⟩ := ih
    have hplain := (Bool.and_eq_true_iff.mp (hreaches.isTidy htidy hd)).1
    obtain ⟨argument, hargument, hvalue⟩ := Located.exists_get? hreference
    obtain ⟨h', g, hg, htarget⟩ := hs.of_follow hr hplain List.mem_cons_self
      (Located.mem_of_get? hargument) (by
        rw [hvalue]
        exact hfollow)
    refine ⟨d, hd, turns, h', g, ?_, htarget, hname⟩
    simpa using hreaches.inner hg
  | inner _ hw ih =>
    obtain ⟨d, hd, turns, h, f, hreaches, hs, hname⟩ := ih
    obtain ⟨turn, ⟨g, hg, hstands, _⟩, hproperty⟩ := hs.of_enters (hreaches.isTidy htidy hd) hw
    refine ⟨d, hd, turns ++ [turn], h, g, hreaches.inner hg, hstands, ?_⟩
    rw [nameAfter_append, ← hname]
    exact hproperty

end Visits

/-! ### What is noted -/

/-- The form at the end of a reference is the only one inside it. -/
theorem Form.exists_reference {h h' : Home} {f g : Form} (hg : (none, h', g) ∈ f.inner h) :
    ∃ reference, f.reference? = some reference ∧ ("$ref", .str reference) ∈ f.keywords ∧
      ∀ h'' g', (none, h'', g') ∈ f.inner h → h'' = h' ∧ g' = g := by
  have hone {a : Option Form} {home : Home}
      (hg : (none, h', g) ∈ (a.map fun f => ((none : Option Turn), home, f)).toList) (h'' : Home)
      (g' : Form) (hg' : (none, h'', g') ∈ (a.map fun f => ((none : Option Turn), home, f)).toList) :
      h'' = h' ∧ g' = g := by
    rw [Option.mem_toList] at hg hg'
    cases hg.symm.trans hg'
    exact ⟨rfl, rfl⟩
  cases f with
  | shared name => exact ⟨_, rfl, List.mem_cons_self, hone hg⟩
  | own name => exact ⟨_, rfl, List.mem_cons_self, hone hg⟩
  | leaf keywords => cases hg
  | fields front ps back =>
    obtain ⟨_, _, heq⟩ := List.mem_map.mp hg
    cases heq
  | oneOf ways =>
    obtain ⟨_, _, heq⟩ := List.mem_map.mp hg
    cases heq
  | _ => cases List.mem_singleton.mp hg

/-- A property name leads to a form with letters in it, by which it refers to elements. -/
def Refers (name letters : String) : Prop :=
  ∃ d ∈ documents, ∃ turns h f, Reaches d turns h f ∧ nameAfter turns = some name ∧ name ≠ "id" ∧
    lettersOf f.value = some letters

section Notes

variable {registry : Registry} (hregistry : registry = .ofSchemas addressedSchemas)
  (hr : Knows registry) (htidy : AreTidy) {notes : Notes}
  (hnotes : ofAddresses registry addresses = .ok notes)

include hregistry hr htidy hnotes

/-- What the walk has seen of a form is a visit that has led on to all there is inside. -/
theorem exists_visit_of_seen {s : Located} {scope : Scope} {property : Option String} {h : Home}
    {f : Form} (hv : Visits registry addresses ⟨s, scope, property⟩) (hs : Stands s scope h f)
    (hseen : (s.place, property) ∈ notes.seen) : ∃ v tasks,
      Visits registry addresses v ∧ Stands v.schema v.scope h f ∧ v.property = property ∧
      innerTasks v = .ok tasks ∧ ∀ t ∈ firstTasks v ++ tasks, IsDone registry notes t := by
  subst hregistry
  obtain ⟨v, tasks, hv', hkey, htasks, hdone⟩ :=
    (ofAddresses_covers length_addresses_le hnotes).2 _ hseen
  obtain ⟨hplace, hproperty⟩ := Prod.mk.inj hkey
  refine ⟨v, tasks, hv', ⟨?_, ?_, ?_⟩, hproperty, htasks, hdone⟩
  · have hover := Registry.isOver_ofSchemas addressedSchemas
    rw [(mem_propertyNames hover hv').1.value_eq (mem_propertyNames hover hv).1 hplace, hs.value_eq]
  · -- the place tells the home, and with it the address
    obtain ⟨_, _, _, h', _, _, hs', _⟩ := exists_reaches_of_visits hr htidy hv'
    obtain ⟨i, hi, hroot⟩ := hs.root_eq
    obtain ⟨j, hj, hroot'⟩ := hs'.root_eq
    rw [hplace, hroot] at hroot'
    cases Nat.succ.inj hroot'
    cases hi.symm.trans hj
    exact hs'.base_eq
  · rw [hplace]
    exact hs.root_eq

/-- The walk visits the schema for each form that the schema of a document type leads to. -/
theorem Reaches.exists_visit {d : DocumentSchema} (hd : d ∈ documents) {turns : List Turn}
    {h : Home} {f : Form} (hf : Reaches d turns h f) : ∃ v tasks,
      Visits registry addresses v ∧ Stands v.schema v.scope h f ∧
      v.property = nameAfter turns ∧ innerTasks v = .ok tasks ∧
      ∀ t ∈ firstTasks v ++ tasks, IsDone registry notes t := by
  induction hf with
  | root =>
    obtain ⟨s, scope, hfollow, hs⟩ := exists_follow_address hr hd
    have hmem : (Home.document d).address ∈ addresses := List.mem_map_of_mem hd
    refine exists_visit_of_seen hregistry hr htidy hnotes (.start hmem hfollow) hs ?_
    subst hregistry
    obtain ⟨s', scope', hfollow', hseen⟩ :=
      (ofAddresses_covers length_addresses_le hnotes).1 _ hmem
    cases hfollow.symm.trans hfollow'
    exact hseen hs.isMap
  | @inner turns h f turn h' g hf hg ih =>
    obtain ⟨v, tasks, hv, hs, hname, htasks, hdone⟩ := ih
    have hplain := (Bool.and_eq_true_iff.mp (hf.isTidy htidy hd)).1
    cases turn with
    | none =>
      obtain ⟨reference, hreference, hmem, hunique⟩ := Form.exists_reference hg
      obtain ⟨target, scope, h'', g', hfollow, hg', htarget⟩ := hs.exists_follow hr hplain hreference
      obtain ⟨rfl, rfl⟩ := hunique _ _ hg'
      obtain ⟨inner, hinner, hvalue, _⟩ := hs.exists_get? hplain (by decide) hmem
      have hget : v.schema.value.get? "$ref" = some (.str reference) := by
        rw [Located.value_of_get? hinner, hvalue]
      have htask : Task.follow v reference ∈ firstTasks v := by
        simp [firstTasks, hget]
      obtain ⟨target', scope', hfollow', hseen⟩ := hdone _ (List.mem_append_left _ htask)
      cases hfollow.symm.trans hfollow'
      have hvisit := exists_visit_of_seen hregistry hr htidy hnotes (.reference hv hget hfollow)
        htarget (hseen htarget.isMap)
      simpa [← hname] using hvisit
    | some turn =>
      obtain ⟨w, hw, hstands, hproperty⟩ := hs.exists_enters hplain hg
      have hseen := hdone _ (List.mem_append_right _ (mem_innerTasks htasks hw)) hstands.isMap
      have hvisit := exists_visit_of_seen hregistry hr htidy hnotes (.inner hv hw) hstands hseen
      rw [Option.toList_some, nameAfter_append, ← hname, ← hproperty]
      exact hvisit

/-- What the walk notes of the properties is how they refer to elements. -/
theorem mem_fields_iff {name letters : String} :
    ⟨name, letters⟩ ∈ notes.fields ↔ Refers name letters := by
  constructor
  · intro hmem
    obtain ⟨s, ⟨scope, hv, hid⟩, hletters⟩ :=
      ((ends_ofAddresses registry addresses).of_ok hnotes).fields _ hmem
    obtain ⟨d, hd, turns, h, f, hreaches, hs, hname⟩ := exists_reaches_of_visits hr htidy hv
    rw [hs.value_eq] at hletters
    exact ⟨d, hd, turns, h, f, hreaches, hname.symm, hid, hletters⟩
  · rintro ⟨d, hd, turns, h, f, hreaches, hname, hid, hletters⟩
    obtain ⟨v, tasks, _, hs, hproperty, _, hdone⟩ :=
      hreaches.exists_visit hregistry hr htidy hnotes hd
    have htask : Task.note v.schema name ∈ firstTasks v := by
      simp [firstTasks, isNoted, hproperty, hname, hid]
    refine hdone _ (List.mem_append_left _ htask) letters ?_
    rw [hs.value_eq]
    exact hletters

end Notes

end BusinessModel.Schema.Bundled
