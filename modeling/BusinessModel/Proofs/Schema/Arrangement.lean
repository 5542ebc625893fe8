import BusinessModel.Proofs.Schema.Closure
import BusinessModel.Proofs.Schema.Reordering
import BusinessModel.Proofs.Schema.Simple
import BusinessModel.Proofs.Schema.Vetting

/-!
The walk through the schemas of a set is on solid ground, and what it computes does not depend on the
order of the documents or of the entries in the schemas. Every reference has to lead to a schema by the
address that the schema gives itself, and each name has to stand for one schema.
-/

namespace BusinessModel.SchemaSet.Draft

open Schema Walk

section Definitions

variable (d : Draft)

/-- The schemas have addresses of their own and pass the check against the schema of schemas, all
references lead to schemas, and what a schema says about identifiers is a mapping. -/
structure IsSound : Prop where
  hasAddress : ∀ e ∈ d.schemas, HasAddress e.2 e.1
  distinct : (d.schemas.map fun e => Address.dropHashes e.1).Nodup
  repeatsNoKey : ∀ e ∈ d.schemas, e.2.RepeatsNoKey
  hasNoInnerId : HasNoInnerId (d.schemas.map (·.2))
  resolves : ∀ {s name reference}, d.Leads s name → s.value.get? "$ref" = some (.str reference) →
    ∃ t, d.Refers s reference t
  about : ∀ {s name x}, d.Leads s name → s.value.get? "x-ubml" = some x → ∃ about, x = .map about ∧
    ∀ letters, Value.lookup "prefix" about = some letters → letters.text ≠ anyKind

/-- The addresses of the documents lead to them, and references to schemas by the addresses that they
give themselves. What a reference leads to passes the check too. No name gives way to another one or
stands for two schemas, and what identifiers begin with is no list and no mapping. -/
structure IsOrderly : Prop where
  document : ∀ e ∈ d.documents,
    Scope.resolve {} (ownAddress e.2) = (Address.dropHashes (ownAddress e.2), "")
  atHome : ∀ {s name reference t scope}, d.Leads s name →
    s.value.get? "$ref" = some (.str reference) →
    follow d.registry { base := d.home s } reference = .ok (t, scope) → scope.base = d.home t
  complaint : ∀ {s name reference t}, d.Leads s name →
    s.value.get? "$ref" = some (.str reference) → d.Refers s reference t →
    Metaschema.complaint? t.value = .ok none
  static : ∀ a ∈ d.registry.survey.anchors, a.dynamic = false
  anchors : (d.registry.survey.anchors.map fun a => (a.address, a.name)).Nodup
  letters : ∀ {s name about letters}, d.Leads s name → s.value.get? "x-ubml" = some (.map about) →
    Value.lookup "prefix" about = some letters → ∃ x, letters = .scalar x

/-- The drafts differ in the order of the documents and of the entries in the schemas only. -/
structure Reorders (d' : Draft) : Prop where
  index : d.index.Reorders d'.index
  definitions : d.definitions.Reorders d'.definitions
  documents : Value.Rearranges d.documents d'.documents

/-- The schemas differ in the order of entries only, and stand in schemas with the same address. -/
structure Counterpart (d' : Draft) (s s' : Located) : Prop where
  value : s.value.Reorders s'.value
  home : d'.home s' = d.home s

end Definitions

variable {d d' : Draft}

theorem mem_schemas_iff {e : String × Value} : e ∈ d.schemas ↔ e.1 = ownAddress e.2 ∧
    (e.2 = d.index ∨ e.2 = d.definitions ∨ ∃ x ∈ d.documents, x.2 = e.2) := by
  obtain ⟨address, v⟩ := e
  simp only [schemas, labelled, List.map_cons, List.map_map, List.mem_cons, List.mem_map, Prod.mk.injEq,
    Function.comp_def]
  constructor
  · rintro (⟨rfl, rfl⟩ | ⟨rfl, rfl⟩ | ⟨x, hx, rfl, rfl⟩)
    · exact ⟨rfl, .inl rfl⟩
    · exact ⟨rfl, .inr (.inl rfl)⟩
    · exact ⟨rfl, .inr (.inr ⟨x, hx, rfl⟩)⟩
  · rintro ⟨rfl, rfl | rfl | ⟨x, hx, rfl⟩⟩
    · exact .inl ⟨rfl, rfl⟩
    · exact .inr (.inl ⟨rfl, rfl⟩)
    · exact .inr (.inr ⟨x, hx, rfl, rfl⟩)

theorem IsSound.repeatsNoKey_of_mem (hs : d.IsSound) {v : Value}
    (h : v = d.index ∨ v = d.definitions ∨ ∃ x ∈ d.documents, x.2 = v) : v.RepeatsNoKey :=
  hs.repeatsNoKey (ownAddress v, v) (mem_schemas_iff.mpr ⟨rfl, h⟩)

/-- The order of the schemas of a sound draft is an order of them. -/
theorem IsSound.reorders (hs : d.IsSound) : d.Reorders d :=
  ⟨(hs.repeatsNoKey_of_mem (.inl rfl)).reorders,
    (hs.repeatsNoKey_of_mem (.inr (.inl rfl))).reorders,
    .of_perm (.refl _) fun e he => hs.repeatsNoKey_of_mem (.inr (.inr ⟨e, he, rfl⟩))⟩

section Reorders

variable (hs : d.IsSound) (h : d.Reorders d')

include hs in
/-- A schema of a sound draft has a text as its address, so another order does not change it. -/
theorem IsSound.ownAddress_eq {v w : Value}
    (hv : v = d.index ∨ v = d.definitions ∨ ∃ x ∈ d.documents, x.2 = v) (hvw : v.Reorders w) :
    ownAddress w = ownAddress v := by
  have hmem : (ownAddress v, v) ∈ d.schemas := mem_schemas_iff.mpr ⟨rfl, hv⟩
  have htext := get?_id_of_addressOf (hs.hasAddress _ hmem).1
  rw [ownAddress, ownAddress, htext, hvw.get?_str_iff.mp htext]

include hs h

/-- The schemas by their addresses are those of the other draft, up to order. -/
theorem IsSound.rearranges : Value.Rearranges d.schemas d'.schemas := by
  obtain ⟨hindex, hdefinitions, rows, rows', horder, hrows, hrows', hvalues⟩ := h
  have hdocument {r : String × Value × Value} (hr : r ∈ rows) :
      ownAddress r.2.2 = ownAddress r.2.1 := by
    refine hs.ownAddress_eq (.inr (.inr ⟨(r.1, r.2.1), ?_, rfl⟩)) (hvalues r hr)
    rw [hrows]
    exact List.mem_map_of_mem hr
  refine ⟨(ownAddress d.index, d.index, d'.index) ::
    (ownAddress d.definitions, d.definitions, d'.definitions) ::
    rows.map fun r => (ownAddress r.2.1, r.2.1, r.2.2),
    (ownAddress d.index, d.index, d'.index) ::
    (ownAddress d.definitions, d.definitions, d'.definitions) ::
    rows'.map fun r => (ownAddress r.2.1, r.2.1, r.2.2), ?_, ?_, ?_, ?_⟩
  · exact ((horder.map _).cons _).cons _
  · simp [schemas, labelled, hrows, List.map_map, Function.comp_def]
  · simp only [schemas, labelled, hrows', List.map_cons, List.map_map, Function.comp_def,
      hs.ownAddress_eq (.inl rfl) hindex, hs.ownAddress_eq (.inr (.inl rfl)) hdefinitions]
    refine congrArg (_ :: _ :: ·) (List.map_congr_left fun r hr => ?_)
    rw [hdocument (horder.mem_iff.mpr hr)]
  · refine List.forall_mem_cons.mpr ⟨hindex, List.forall_mem_cons.mpr ⟨hdefinitions, ?_⟩⟩
    exact List.forall_mem_map.mpr hvalues

theorem IsSound.distinct_reorders : (d'.schemas.map fun e => Address.dropHashes e.1).Nodup := by
  have horder := (hs.rearranges h).perm_fst.map Address.dropHashes
  rw [List.map_map, List.map_map] at horder
  exact horder.nodup_iff.mp hs.distinct

/-- An address leads to schemas opposite to each other. -/
theorem IsSound.find?_eq {i : Nat} {address : String} {v : Value}
    (hi : d.schemas[i]? = some (address, v)) : ∃ (j : Nat) (w : Value),
      d'.schemas[j]? = some (address, w) ∧ v.Reorders w ∧
      d.registry.find? (Address.dropHashes address) = some ⟨v, ⟨i, []⟩⟩ ∧
      d'.registry.find? (Address.dropHashes address) = some ⟨w, ⟨j, []⟩⟩ := by
  obtain ⟨j, w, hj, hvw⟩ := (hs.rearranges h).exists_getElem? hi
  exact ⟨j, w, hj, hvw, Registry.find?_dropHashes hs.distinct hi,
    Registry.find?_dropHashes (hs.distinct_reorders h) hj⟩

/-! ### Names -/

/-- Each name has its counterpart. -/
theorem IsSound.exists_anchor {a : Schema.Anchor} (ha : a ∈ d.registry.survey.anchors) :
    ∃ b ∈ d'.registry.survey.anchors, a.Matches b ∧ d'.home b.target = d.home a.target := by
  obtain ⟨i, address, v, hi, ha⟩ := (Registry.mem_anchors_ofSchemas hs.distinct).mp ha
  obtain ⟨j, w, hj, hvw⟩ := (hs.rearranges h).exists_getElem? hi
  obtain ⟨b, hb, hmatches, hroot, hroot'⟩ := Survey.exists_anchor_of_reorders hvw ⟨j, []⟩ ha
  have hknown := (Registry.mem_anchors_ofSchemas (hs.distinct_reorders h)).mpr ⟨j, address, w, hj, hb⟩
  refine ⟨b, hknown, hmatches, ?_⟩
  rw [home_eq hroot' hj, home_eq hroot hi]

theorem IsSound.exists_anchor_back {b : Schema.Anchor} (hb : b ∈ d'.registry.survey.anchors) :
    ∃ a ∈ d.registry.survey.anchors, b.Matches a ∧ d'.home b.target = d.home a.target := by
  obtain ⟨j, address, w, hj, hb⟩ :=
    (Registry.mem_anchors_ofSchemas (hs.distinct_reorders h)).mp hb
  obtain ⟨i, v, hi, hwv⟩ := (hs.rearranges h).symm.exists_getElem? hj
  obtain ⟨a, ha, hmatches, hroot, hroot'⟩ := Survey.exists_anchor_of_reorders hwv ⟨i, []⟩ hb
  refine ⟨a, (Registry.mem_anchors_ofSchemas hs.distinct).mpr ⟨i, address, v, hi, ha⟩, hmatches, ?_⟩
  rw [home_eq hroot hj, home_eq hroot' hi]

/-- A name stands for its counterpart too. -/
theorem IsSound.named_cases (ho : d.IsOrderly) (address name : String) :
    (∃ a b, d.registry.named address name = some a ∧ d'.registry.named address name = some b ∧
      a.Matches b ∧ d'.home b.target = d.home a.target) ∨
    (d.registry.named address name = none ∧ d'.registry.named address name = none) := by
  cases hb : d'.registry.named address name with
  | some b =>
    obtain ⟨hmem, rfl, rfl⟩ := Registry.named_eq_some hb
    obtain ⟨a, ha, hmatches, hhome⟩ := hs.exists_anchor_back h hmem
    refine .inl ⟨a, b, ?_, rfl, hmatches.symm, hhome⟩
    rw [← hmatches.address, ← hmatches.name]
    exact Registry.named_eq_of_mem ho.anchors ha
  | none =>
    refine .inr ⟨?_, rfl⟩
    cases ha : d.registry.named address name with
    | none => rfl
    | some a =>
      obtain ⟨hmem, rfl, rfl⟩ := Registry.named_eq_some ha
      obtain ⟨b, hb', hmatches, _⟩ := hs.exists_anchor h hmem
      have hnone := List.find?_eq_none.mp hb b hb'
      simp [hmatches.address, hmatches.name] at hnone

/-- Where an address leads to schemas opposite to each other, so does a name at the address. -/
theorem IsSound.exists_anchor? (ho : d.IsOrderly) {address name : String} {s s' : Located}
    (hfind : d.registry.find? address = some s) (hfind' : d'.registry.find? address = some s')
    (hreorders : s.value.Reorders s'.value) {a : Schema.Anchor}
    (ha : d.registry.anchor? address name = .ok a) :
    ∃ b, d'.registry.anchor? address name = .ok b ∧ a.Matches b ∧
      d'.home b.target = d.home a.target := by
  rw [Registry.anchor?_eq] at ha ⊢
  simp only [hfind, hfind', idOf?_eq_of_reorders hreorders] at ha ⊢
  rcases hs.named_cases h ho address name with ⟨x, y, hx, hy, hxy⟩ | ⟨hx, hy⟩
  · rw [hx] at ha
    cases ha
    rw [hy]
    exact ⟨y, rfl, hxy⟩
  · rw [hx] at ha
    rw [hy]
    cases hid : (idOf? s.value).toOption.join with
    | none => simp [hid] at ha
    | some id =>
      simp only [hid, Option.bind_some] at ha ⊢
      rcases hs.named_cases h ho id name with ⟨x, y, hx, hy, hxy⟩ | ⟨hx, hy⟩
      · rw [hx] at ha
        cases ha
        rw [hy]
        exact ⟨y, rfl, hxy⟩
      · rw [hx] at ha
        cases ha

/-! ### References -/

omit h in
/-- What stands in a schema is found in the scope in which it is looked for. -/
theorem IsSound.scope_of_followIn (ho : d.IsOrderly) {root t : Located} {fragment : String}
    {scope inner : Scope} (hroot : root.IsIn (d.schemas.map (·.2)))
    (hfollow : followIn d.registry root fragment scope = .ok (t, inner)) : inner = scope := by
  unfold followIn at hfollow
  split at hfollow
  · exact (hs.hasNoInnerId.of_followSteps hroot hfollow).1
  · split at hfollow
    · cases hfollow
      rfl
    · obtain ⟨a, ha, hfollow⟩ := bind_eq_ok_iff.mp hfollow
      rw [ho.static a (Registry.mem_of_anchor? ha), if_neg Bool.false_ne_true] at hfollow
      cases hfollow
      rfl

/-- In schemas opposite to each other, the same leads to counterparts, from whatever scope. -/
theorem IsSound.exists_followIn (ho : d.IsOrderly) {address : String} {root root' t : Located}
    (hroot : d.registry.find? address = some root) (hroot' : d'.registry.find? address = some root')
    (hroots : d.Counterpart d' root root') {fragment : String} {scope inner : Scope}
    (hscope : scope.base = address)
    (hfollow : followIn d.registry root fragment scope = .ok (t, inner)) :
    ∃ t', d.Counterpart d' t t' ∧ ∀ scope' : Scope, scope'.base = address →
      followIn d'.registry root' fragment scope' = .ok (t', scope') := by
  unfold followIn at hfollow ⊢
  split at hfollow
  · next hpointer =>
    have hin := (Registry.isOver_ofSchemas d.schemas).of_find? hroot
    obtain ⟨t', ht', hsame, hsteps⟩ :=
      exists_followSteps_of_reorders hs.hasNoInnerId hin hroots.value hfollow
    refine ⟨t', ⟨ht', ?_⟩, fun scope' _ => ?_⟩
    · rw [home_congr hsame, home_congr (hs.hasNoInnerId.of_followSteps hin hfollow).2]
      exact hroots.home
    · rw [if_pos hpointer]
      exact hsteps scope'
  · next hpointer =>
    split at hfollow
    · next hempty =>
      cases hfollow
      exact ⟨root', hroots, fun scope' _ => by rw [if_neg hpointer, if_pos hempty]; rfl⟩
    · next hempty =>
      obtain ⟨a, ha, hfollow⟩ := bind_eq_ok_iff.mp hfollow
      rw [hscope] at ha
      have hstatic := ho.static a (Registry.mem_of_anchor? ha)
      rw [hstatic, if_neg Bool.false_ne_true] at hfollow
      cases hfollow
      obtain ⟨b, hb, hmatches, hhome⟩ := hs.exists_anchor? h ho hroot hroot' hroots.value ha
      refine ⟨b.target, ⟨hmatches.target, hhome⟩, fun scope' hscope' => ?_⟩
      rw [if_neg hpointer, if_neg hempty, hscope', hb]
      simp [bind, Except.bind, pure, Except.pure, hmatches.dynamic, hstatic]

/-- A reference leads to counterparts, whatever way it is followed from. -/
theorem IsSound.exists_follow (ho : d.IsOrderly) {s t : Located} {name : Option String}
    {reference : String} (hleads : d.Leads s name)
    (hreference : s.value.get? "$ref" = some (.str reference)) (ht : d.Refers s reference t) :
    ∃ t', d.Counterpart d' t t' ∧ ∀ scope : Scope, scope.base = d.home s → ∃ inner,
      follow d'.registry scope reference = .ok (t', inner) ∧ inner.base = d'.home t' := by
  obtain ⟨own, hfollow⟩ := ht
  obtain ⟨address, fragment, hresolve⟩ : ∃ address fragment, ∀ scope : Scope,
      scope.base = d.home s → scope.resolve reference = (address, fragment) :=
    ⟨_, _, fun scope hscope => by simp only [Scope.resolve, hscope]; rfl⟩
  obtain ⟨root, hroot⟩ := exists_root_of_follow hfollow
  rw [hresolve _ rfl] at hroot
  have hover := Registry.isOver_ofSchemas d.schemas
  have hhome := ho.atHome hleads hreference hfollow
  have hin := isIn_of_follow hover hfollow
  rw [follow_eq (hresolve _ rfl) hroot] at hfollow
  -- the reference means the address that the schema of its target gives itself
  have haddress : address = d.home t := by
    rw [← hhome, hs.scope_of_followIn ho (hover.of_find? hroot) hfollow]
    rfl
  obtain ⟨own, v, hi, hown⟩ : ∃ own v, d.schemas[t.place.root]? = some (own, v) ∧
      address = Address.dropHashes own := by
    obtain ⟨v, hv⟩ := hin.exists_root
    rw [List.getElem?_map] at hv
    obtain ⟨⟨own, w⟩, he, _⟩ := Option.map_eq_some_iff.mp hv
    exact ⟨own, w, he, haddress.trans (home_eq rfl he)⟩
  obtain ⟨j, w, hj, hvw, hfind, hfind'⟩ := hs.find?_eq h hi
  rw [← hown] at hfind hfind'
  cases hroot.symm.trans hfind
  obtain ⟨t', ht', hfollow'⟩ := hs.exists_followIn h ho hfind hfind'
    ⟨hvw, (home_eq rfl hj).trans (home_eq rfl hi).symm⟩ rfl hfollow
  refine ⟨t', ht', fun scope hscope => ⟨scope.moveTo address, ?_, ?_⟩⟩
  · rw [follow_eq (hresolve _ hscope) hfind']
    exact hfollow' _ rfl
  · rw [ht'.home, ← haddress]
    rfl

/-! ### The closure -/

omit h in
/-- The document schemas are counterparts of each other. -/
theorem IsSound.counterpart_of_documents {i j : Nat} {type type' : String} {v w : Value}
    (hi : d.documents[i]? = some (type, v)) (hj : d'.documents[j]? = some (type', w))
    (hvw : v.Reorders w) : d.Counterpart d' ⟨v, ⟨i + 2, []⟩⟩ ⟨w, ⟨j + 2, []⟩⟩ := by
  refine ⟨hvw, ?_⟩
  rw [home_eq rfl (getElem?_schemas hj), home_eq rfl (getElem?_schemas hi),
    hs.ownAddress_eq (.inr (.inr ⟨_, List.mem_of_getElem? hi, rfl⟩)) hvw]

/-- What a document schema leads to has its counterpart. -/
theorem IsSound.exists_leads (ho : d.IsOrderly) {s : Located} {name : Option String}
    (hleads : d.Leads s name) : ∃ s', d'.Leads s' name ∧ d.Counterpart d' s s' := by
  induction hleads with
  | @document i type v hi =>
    obtain ⟨j, w, hj, hvw⟩ := h.documents.exists_getElem? hi
    exact ⟨_, .document hj, hs.counterpart_of_documents hi hj hvw⟩
  | @reference s name reference t hleads hreference ht ih =>
    obtain ⟨s', hs', hcounterpart⟩ := ih
    obtain ⟨t', ht', hfollow⟩ := hs.exists_follow h ho hleads hreference ht
    obtain ⟨inner, hfollow, _⟩ := hfollow { base := d'.home s' } hcounterpart.home
    exact ⟨t', .reference hs' (hcounterpart.value.get?_str_iff.mp hreference) ⟨inner, hfollow⟩, ht'⟩
  | @inner s name t name' _ hw ih =>
    obtain ⟨s', hs', hcounterpart⟩ := ih
    obtain ⟨t', hw', ht'⟩ := exists_enters_of_reorders hcounterpart.value hw
    refine ⟨t', .inner hs' hw', ht', ?_⟩
    have hroot := root_of_enters hw
    have hroot' := root_of_enters hw'
    rw [home_congr hroot', home_congr hroot]
    exact hcounterpart.home

theorem IsSound.exists_leads_back (ho : d.IsOrderly) {s' : Located} {name : Option String}
    (hleads : d'.Leads s' name) : ∃ s, d.Leads s name ∧ d.Counterpart d' s s' := by
  induction hleads with
  | @document j type w hj =>
    obtain ⟨i, v, hi, hwv⟩ := h.documents.symm.exists_getElem? hj
    exact ⟨_, .document hi, hs.counterpart_of_documents hi hj hwv.symm⟩
  | @reference s' name reference t' _ hreference ht' ih =>
    obtain ⟨s, hleads, hcounterpart⟩ := ih
    have hreference := hcounterpart.value.get?_str_iff.mpr hreference
    obtain ⟨t, ht⟩ := hs.resolves hleads hreference
    obtain ⟨t'', hcounterpart', hfollow⟩ := hs.exists_follow h ho hleads hreference ht
    obtain ⟨_, hfollow, _⟩ := hfollow { base := d'.home s' } hcounterpart.home
    obtain ⟨_, hown⟩ := ht'
    cases hfollow.symm.trans hown
    exact ⟨t, .reference hleads hreference ht, hcounterpart'⟩
  | @inner s' name t' name' _ hw' ih =>
    obtain ⟨s, hleads, hcounterpart⟩ := ih
    obtain ⟨t, hw, ht⟩ := exists_enters_of_reorders hcounterpart.value.symm hw'
    refine ⟨t, .inner hleads hw, ht.symm, ?_⟩
    have hroot := root_of_enters hw
    have hroot' := root_of_enters hw'
    rw [home_congr hroot', home_congr hroot]
    exact hcounterpart.home

omit h in
/-- All schemas that a document schema leads to have passed the check. -/
theorem IsSound.isVetted (ho : d.IsOrderly) {s : Located} {name : Option String}
    (hleads : d.Leads s name) : Metaschema.IsVetted s.value := by
  induction hleads with
  | document hi =>
    have hmem := List.mem_of_getElem? (getElem?_schemas hi)
    exact Metaschema.isVetted_of_complaint? (hs.hasAddress _ hmem).2
  | reference hleads hreference ht _ =>
    exact Metaschema.isVetted_of_complaint? (ho.complaint hleads hreference ht)
  | @inner s name t name' _ hw ih =>
    have hentry {keyword : String} {inner : Located} {k : Value} {t : Located}
        (hkeyword : keyword ∈ ["properties", "patternProperties"])
        (hinner : s.get? keyword = some inner) (ht : (k, t) ∈ inner.entries) :
        Metaschema.IsVetted t.value := by
      obtain ⟨entries, hvalue, hall⟩ := ih.exists_entries hkeyword (Located.value_of_get? hinner)
      obtain ⟨i, v, hv, rfl⟩ := Located.mem_entries_iff.mp ht
      rw [hvalue] at hv
      exact hall _ (List.mem_of_getElem? hv)
    cases hw with
    | property hinner ht => exact hentry (by simp) hinner ht
    | pattern hinner ht => exact hentry (by simp) hinner ht
    | items hinner _ => exact ih.isVetted_of_get? (by simp) (Located.value_of_get? hinner)
    | additional hinner _ => exact ih.isVetted_of_get? (by simp) (Located.value_of_get? hinner)
    | way hkeyword hinner ht =>
      obtain ⟨items, hvalue, hall⟩ := ih.exists_items hkeyword (Located.value_of_get? hinner)
      obtain ⟨i, v, hv, rfl⟩ := Located.mem_items_iff.mp ht
      rw [hvalue] at hv
      exact hall _ (List.mem_of_getElem? hv)

/-- The walk is on solid ground, whatever the order. -/
theorem IsSound.isGrounded (ho : d.IsOrderly) : d'.IsGrounded := by
  have hback {s' : Located} {keyword : String} {v : Value} {s : Located}
      (hcounterpart : d.Counterpart d' s s')
      (hv : (s'.get? keyword).map (·.value) = some v) :
      ∃ w, s.value.get? keyword = some w ∧ w.Reorders v := by
    obtain ⟨inner', hinner', rfl⟩ := Option.map_eq_some_iff.mp hv
    obtain ⟨w, hw, hvw⟩ := hcounterpart.value.symm.exists_get? (Located.value_of_get? hinner')
    exact ⟨w, hw, hvw.symm⟩
  constructor
  case document =>
    intro j type w hj
    obtain ⟨i, v, hi, hwv⟩ := h.documents.symm.exists_getElem? hj
    have hmem := List.mem_of_getElem? hi
    have haddress := hs.ownAddress_eq (.inr (.inr ⟨_, hmem, rfl⟩)) hwv.symm
    have hresolve := ho.document _ hmem
    have hown := getElem?_schemas hj
    rw [← haddress] at hresolve
    refine ⟨_, follow_root hresolve (Registry.find?_dropHashes (hs.distinct_reorders h) hown), ?_⟩
    rw [home_eq rfl hown]
    rfl
  case reference =>
    intro s' name reference hleads hreference
    obtain ⟨s, hleads, hcounterpart⟩ := hs.exists_leads_back h ho hleads
    have hreference := hcounterpart.value.get?_str_iff.mpr hreference
    obtain ⟨t, ht⟩ := hs.resolves hleads hreference
    obtain ⟨t', _, hfollow⟩ := hs.exists_follow h ho hleads hreference ht
    exact ⟨t', fun scope hscope => hfollow scope (hscope.trans hcounterpart.home)⟩
  case table =>
    rintro s' name keyword hleads hkeyword ⟨v, hv, _, hmap⟩
    obtain ⟨s, hleads, hcounterpart⟩ := hs.exists_leads_back h ho hleads
    obtain ⟨w, hw, hvw⟩ := hback hcounterpart hv
    obtain ⟨entries, rfl, _⟩ := (hs.isVetted ho hleads).exists_entries hkeyword hw
    rw [hvw.isMap_eq] at hmap
    cases hmap
  case list =>
    rintro s' name keyword hleads hkeyword ⟨v, hv, _, hmembers⟩
    obtain ⟨s, hleads, hcounterpart⟩ := hs.exists_leads_back h ho hleads
    obtain ⟨w, hw, hvw⟩ := hback hcounterpart hv
    obtain ⟨items, rfl, _⟩ := (hs.isVetted ho hleads).exists_items hkeyword hw
    cases hvw
    cases hmembers
  case about =>
    rintro s' name hleads ⟨v, hv, _, hmap⟩
    obtain ⟨s, hleads, hcounterpart⟩ := hs.exists_leads_back h ho hleads
    obtain ⟨w, hw, hvw⟩ := hcounterpart.value.symm.exists_get? hv
    obtain ⟨about, rfl, _⟩ := hs.about hleads hw
    rw [hvw.symm.isMap_eq] at hmap
    cases hmap

end Reorders

/-! ### Simple drafts -/

section Definitions

variable (d : Draft)

/-- Whether all schemas are simple and have addresses, which differ without number signs at the end. -/
def isSimple : Bool :=
  (d.schemas.all fun e => Metaschema.isSimple 4 e.2 &&
    ((e.2.get? "$id").bind Value.str?).any fun address => address == e.1 && !address.isEmpty) &&
  decide (d.schemas.map fun e => Address.dropHashes e.1).Nodup

/-- A part gives itself no address, its reference leads to a schema, and what it says about identifiers
is as it has to be. -/
structure IsSoundPart (s : Located) : Prop where
  id : (s.place.steps.isEmpty || ((s.value.get? "$id").bind Value.str?).isNone) = true
  resolves : (((s.value.get? "$ref").bind Value.str?).all fun reference =>
    (follow d.registry { base := d.home s } reference).toOption.isSome) = true
  about : ((s.value.get? "x-ubml").all fun about => about.isMap &&
    (about.get? "prefix").all fun letters => letters.text != anyKind) = true

instance (s : Located) : Decidable (d.IsSoundPart s) :=
  decidable_of_iff (_ ∧ _ ∧ _) ⟨fun h => ⟨h.1, h.2.1, h.2.2⟩, fun h => ⟨h.id, h.resolves, h.about⟩⟩

/-- The reference of a part leads to a simple schema by the address that the schema gives itself, and
what identifiers begin with is a text. -/
structure IsOrderlyPart (s : Located) : Prop where
  reference : (((s.value.get? "$ref").bind Value.str?).all fun reference =>
    match follow d.registry { base := d.home s } reference with
    | .ok (target, scope) => scope.base == d.home target && Metaschema.isSimple 4 target.value
    | .error _ => false) = true
  letters : ((s.value.get? "x-ubml").all fun about =>
    (about.get? "prefix").all fun letters => letters.str?.isSome) = true

instance (s : Located) : Decidable (d.IsOrderlyPart s) :=
  decidable_of_iff (_ ∧ _) ⟨fun h => ⟨h.1, h.2⟩, fun h => ⟨h.reference, h.letters⟩⟩

end Definitions

variable {d : Draft}

theorem mem_parts_of_get? {s : Located} (hs : s.IsIn (d.schemas.map (·.2))) {keyword : String}
    {v : Value} (hv : s.value.get? keyword = some v) : s ∈ allParts (d.schemas.map (·.2)) := by
  refine mem_allParts hs fun x hx => ?_
  rw [hx] at hv
  cases hv

theorem hasNoInnerId_of_parts (hparts : ∀ s ∈ allParts (d.schemas.map (·.2)),
    (s.place.steps.isEmpty || ((s.value.get? "$id").bind Value.str?).isNone) = true) :
    HasNoInnerId (d.schemas.map (·.2)) := by
  intro s hs hsteps id hid
  have hpart := hparts s (mem_parts_of_get? hs hid)
  simp [hid, Value.str?, hsteps] at hpart

/-- A simple draft is sound if its parts are. -/
theorem isSound_of_isSimple (hsimple : d.isSimple = true)
    (hrepeats : ∀ e ∈ d.schemas, e.2.RepeatsNoKey)
    (hparts : ∀ s ∈ allParts (d.schemas.map (·.2)), d.IsSoundPart s) : d.IsSound := by
  rw [isSimple, Bool.and_eq_true, decide_eq_true_eq, List.all_eq_true] at hsimple
  obtain ⟨hsimple, hdistinct⟩ := hsimple
  constructor
  case hasAddress =>
    intro e he
    have hschema := hsimple e he
    rw [Bool.and_eq_true] at hschema
    obtain ⟨address, haddress, hsame⟩ := (Option.any_eq_true _ _).mp hschema.2
    rw [Bool.and_eq_true, beq_iff_eq, Bool.not_eq_true'] at hsame
    obtain ⟨rfl, hne⟩ := hsame
    exact hasAddress_of_isSimple hschema.1 haddress hne (by decide)
  case distinct => exact hdistinct
  case repeatsNoKey => exact hrepeats
  case hasNoInnerId => exact hasNoInnerId_of_parts fun s hs => (hparts s hs).id
  case resolves =>
    intro s name reference hleads hreference
    have hsound := (hparts s (mem_parts_of_get? hleads.isIn hreference)).resolves
    rw [hreference] at hsound
    cases hfollow : follow d.registry { base := d.home s } reference with
    | ok target => exact ⟨target.1, target.2, hfollow⟩
    | error fault => simp [hfollow, Value.str?, Except.toOption] at hsound
  case about =>
    intro s name x hleads hx
    have hsound := (hparts s (mem_parts_of_get? hleads.isIn hx)).about
    rw [hx, Option.all_some, Bool.and_eq_true] at hsound
    obtain ⟨hmap, hletters⟩ := hsound
    cases x with
    | map about =>
      refine ⟨about, rfl, fun letters hprefix => ?_⟩
      simpa [Value.get?, hprefix] using hletters
    | scalar s => cases hmap
    | list items => cases hmap

/-- A draft is orderly if its documents, names and parts are. -/
theorem isOrderly_of_parts
    (hdocuments : ∀ e ∈ d.documents.map (fun e => ownAddress e.2),
      Scope.resolve {} e = (Address.dropHashes e, ""))
    (hstatic : ∀ a ∈ d.registry.survey.anchors, a.dynamic = false)
    (hanchors : (d.registry.survey.anchors.map fun a => (a.address, a.name)).Nodup)
    (hparts : ∀ s ∈ allParts (d.schemas.map (·.2)), d.IsOrderlyPart s) : d.IsOrderly := by
  have hfollow {s t : Located} {name : Option String} {reference : String} {scope : Scope}
      (hleads : d.Leads s name) (hreference : s.value.get? "$ref" = some (.str reference))
      (ht : follow d.registry { base := d.home s } reference = .ok (t, scope)) :
      scope.base = d.home t ∧ Metaschema.isSimple 4 t.value = true := by
    have horderly := (hparts s (mem_parts_of_get? hleads.isIn hreference)).reference
    rw [hreference] at horderly
    simpa [Value.str?, ht] using horderly
  constructor
  case document => exact fun e he => hdocuments _ (List.mem_map_of_mem he)
  case atHome => exact fun hleads hreference ht => (hfollow hleads hreference ht).1
  case complaint =>
    rintro s name reference t hleads hreference ⟨scope, ht⟩
    exact Metaschema.complaint?_eq_none (Metaschema.meets_schema
      (Metaschema.isSchema_of_isSimple (hfollow hleads hreference ht).2)) (by decide)
  case static => exact hstatic
  case anchors => exact hanchors
  case letters =>
    intro s name about letters hleads habout hletters
    have horderly := (hparts s (mem_parts_of_get? hleads.isIn habout)).letters
    rw [habout, Option.all_some] at horderly
    change (Value.lookup "prefix" about).all _ = true at horderly
    rw [hletters, Option.all_some] at horderly
    obtain ⟨text, htext⟩ := Option.isSome_iff_exists.mp horderly
    exact ⟨_, Value.eq_of_str? htext⟩

end BusinessModel.SchemaSet.Draft
