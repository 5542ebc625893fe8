import BusinessModel.Proofs.Schema.Bundled.Check

/-!
Where a check of a value by a bundled schema comes to: the forms whose schemas are applied to the
parts of the value. The way to a form and that to the part take the same turns.
-/

namespace BusinessModel.Schema.Bundled

/-- The reference that a form is. -/
def Form.reference? : Form → Option String
  | shared name => some (sharedReference name)
  | own name => some (ownReference name)
  | _ => none

/-- A form that does not describe values itself is a reference or a choice. -/
theorem Form.of_not_isDirect {f : Form} (hdirect : ¬ f.isDirect = true) :
    (∃ reference, f.reference? = some reference ∧ ("$ref", .str reference) ∈ f.keywords) ∨
      ∃ ways, f = .oneOf ways := by
  cases f with
  | shared name => exact .inl ⟨_, rfl, List.mem_cons_self⟩
  | own name => exact .inl ⟨_, rfl, List.mem_cons_self⟩
  | oneOf ways => exact .inr ⟨ways, rfl⟩
  | _ => exact absurd rfl hdirect

section Reference

variable {r : Registry} {s target : Located} {scope scope' : Scope} {h : Home} {f : Form} {x : Value}

/-- A reference is followed to the schema for the form that it refers to. -/
theorem Stands.exists_follow (hr : Knows r) (hs : Stands s scope h f) (hplain : f.isPlain h = true)
    {reference : String} (hreference : f.reference? = some reference) :
    ∃ target scope' h' g, follow r scope reference = .ok (target, scope') ∧
      (none, h', g) ∈ f.inner h ∧ Stands target scope' h' g := by
  unfold Form.reference? at hreference
  split at hreference
  · cases hreference
    obtain ⟨g, target, scope', hg, hfollow, htarget⟩ := hs.follow_shared hr hplain
    exact ⟨target, scope', .shared, g, hfollow, by simp [Form.inner, hg], htarget⟩
  · cases hreference
    obtain ⟨g, target, scope', hg, hfollow, htarget⟩ := hs.follow_own hr hplain
    exact ⟨target, scope', h, g, hfollow, by simp [Form.inner, hg], htarget⟩
  · cases hreference

/-- What a keyword refers to stands for the form that the reference refers to. -/
theorem Stands.of_follow (hr : Knows r) (hs : Stands s scope h f) (hplain : f.isPlain h = true)
    {keyword : String} {argument : Located} (hkeyword : keyword ∈ ["$ref", "$dynamicRef"])
    (hmem : (.str keyword, argument) ∈ s.entries)
    (hfollow : follow r scope argument.value.text = .ok (target, scope')) :
    ∃ h' g, (none, h', g) ∈ f.inner h ∧ Stands target scope' h' g := by
  have hto {reference : String} (hreference : f.reference? = some reference)
      (hvalue : argument.value = .str reference) :
      ∃ h' g, (none, h', g) ∈ f.inner h ∧ Stands target scope' h' g := by
    obtain ⟨target', scope'', h', g, hfollow', hg, htarget⟩ := hs.exists_follow hr hplain hreference
    rw [hvalue] at hfollow
    cases hfollow'.symm.trans hfollow
    exact ⟨h', g, hg, htarget⟩
  simp only [List.mem_cons, List.not_mem_nil, or_false] at hkeyword
  rcases hkeyword with rfl | rfl
  · cases (hs.holds hplain hmem).1 with
    | inert hin => exact absurd hin (by decide)
    | shared hf _ hvalue => exact hto (by rw [hf, Form.reference?]) hvalue
    | own hf _ hvalue => exact hto (by rw [hf, Form.reference?]) hvalue
    | _ _ hkey _ => exact absurd hkey (by decide)
  · exact absurd (hs.keyword_mem hplain hmem) (by decide)

/-- A value that meets a reference meets the schema that it refers to. -/
theorem Meets.of_follow (hmeets : Meets r scope s x) (hs : Stands s scope h f) {h' : Home} {g : Form}
    (htarget : Stands target scope' h' g) {keyword : String} {argument : Located}
    (hkeyword : keyword ∈ ["$ref", "$dynamicRef"]) (hmem : (.str keyword, argument) ∈ s.entries)
    (hfollow : follow r scope argument.value.text = .ok (target, scope')) :
    Meets r scope' target x := by
  obtain ⟨depth, hsite⟩ := hmeets.exists_site hs
  have hkeyword' : keyword = "$ref" ∨ keyword = "$dynamicRef" := by simpa using hkeyword
  obtain ⟨target', scope'', hfollow', hadmits⟩ :=
    (Site.reference_eq_nil_iff hkeyword').mp (hsite _ _ hmem)
  cases hfollow'.symm.trans hfollow
  exact .of_admits hadmits htarget.value_eq

/-- A value that meets a choice between ways meets the schema for one of them. -/
theorem Meets.exists_way {ways : List Form} (hmeets : Meets r scope s x)
    (hs : Stands s scope h (.oneOf ways)) (htidy : (Form.oneOf ways).isTidy h = true) :
    ∃ g ∈ ways, ∃ inner, Hands s x inner [] x ∧ Stands inner scope h g ∧
      scope.enter inner.value = .ok scope ∧ Meets r scope inner x := by
  obtain ⟨depth, hsite⟩ := hmeets.exists_site hs
  obtain ⟨argument, hmem, hvalue⟩ := hs.exists_entry List.mem_cons_self
  obtain ⟨inner, hinner, henters⟩ := Site.exists_of_oneOf (hsite _ _ hmem)
  have hhands : Hands s x inner [] x := .way (by simp) hmem hinner
  rcases hs.of_hands htidy hhands with ⟨_, hexceeds⟩ | ⟨turn, ⟨g, hg, hstands, henter⟩, _⟩
  · exact absurd hexceeds (hmeets.not_exceeds hs)
  · obtain ⟨g', hg', heq⟩ := List.mem_map.mp hg
    cases heq
    exact ⟨_, hg', inner, hhands, hstands, henter, .of_enters henters hstands.value_eq henter⟩

end Reference

/-- A check of a value by the schema for a form comes to a part of the value with the schema for
another form. The way to the part takes the turns on the way to the form. -/
structure Descends (r : Registry) (d : DocumentSchema) (scope : Scope) (s : Located)
    (turns : List Turn) (x : Value) (segments : List Segment) (further : List Turn) (scope' : Scope)
    (t : Located) (h' : Home) (g : Form) (y : Value) : Prop where
  applies : Applies r t y scope s x segments
  reaches : Reaches d (turns ++ further) h' g
  stands : Stands t scope' h' g
  follows : Follows further segments

section Descent

variable {r : Registry} (hr : Knows r) {d : DocumentSchema} {depth : Nat}

include hr

/-- To each text in a value that meets a schema, the schema of a leaf is applied, and the text meets
it. -/
theorem exists_leaf_applied {turns : List Turn} {h : Home} {f : Form}
    (hall : f.all (fun _ h f => f.isTidy h) depth turns h = true) (hreaches : Reaches d turns h f)
    {s : Located} {scope : Scope} (hs : Stands s scope h f) {x : Value} (hx : x.IsTree)
    (hmeets : Meets r scope s x) {segments : List Segment} {text : String}
    (hleads : x.Leads segments (.str text)) :
    ∃ further scope' t h' keywords, Descends r d scope s turns x segments further scope' t h'
      (.leaf keywords) (.str text) ∧ Meets r scope' t (.str text) := by
  induction depth generalizing turns h f s scope x segments with
  | zero => cases hall
  | succ depth ih =>
    obtain ⟨htidy, hinner⟩ := Bool.and_eq_true_iff.mp hall
    rw [List.all_eq_true] at hinner
    have hplain := (Bool.and_eq_true_iff.mp htidy).1
    by_cases hdirect : f.isDirect = true
    · have hfits := hmeets.fits hs hplain hdirect
      cases hleads with
      | here =>
        cases hfits with
        | @leaf keywords =>
          exact ⟨[], scope, s, h, keywords, ⟨.here, by rwa [List.append_nil], hs, .nil⟩, hmeets⟩
      | @step _ part _ segment rest hstep htail =>
        obtain ⟨inner, hhands⟩ := hs.exists_hands hplain hfits hstep
        rcases hs.of_hands htidy hhands with
          ⟨_, hexceeds⟩ | ⟨turn, ⟨g, hg, hstands, henter⟩, hfollows⟩
        · exact absurd hexceeds (hmeets.not_exceeds hs)
        · obtain ⟨further, scope', t, h', keywords, hdescends, hmeets'⟩ :=
            ih (hinner _ hg) (hreaches.inner hg) hstands (hx.of_step hstep)
              (hs.meets_of_hands htidy hx hmeets hhands (by simp)) htail
          refine ⟨turn :: further, scope', t, h', keywords, ⟨?_, ?_, hdescends.stands, ?_⟩, hmeets'⟩
          · exact .inner hhands henter hdescends.applies
          · simpa using hdescends.reaches
          · exact hfollows.append hdescends.follows
    · rcases Form.of_not_isDirect hdirect with ⟨reference, hreference, hkeyword⟩ | ⟨ways, rfl⟩
      · obtain ⟨argument, hmem, hvalue⟩ := hs.exists_entry hkeyword
        obtain ⟨target, inside, h', g, hfollow, hg, htarget⟩ := hs.exists_follow hr hplain hreference
        have hfollow' : follow r scope argument.value.text = .ok (target, inside) := by
          rw [hvalue]
          exact hfollow
        obtain ⟨further, scope', t, h'', keywords, hdescends, hmeets'⟩ :=
          ih (hinner _ hg) (hreaches.inner hg) htarget hx
            (hmeets.of_follow hs htarget List.mem_cons_self hmem hfollow') hleads
        refine ⟨further, scope', t, h'', keywords, ⟨?_, ?_, hdescends.stands, hdescends.follows⟩,
          hmeets'⟩
        · exact .reference List.mem_cons_self hmem hfollow' hdescends.applies
        · simpa using hdescends.reaches
      · obtain ⟨g, hg, inner, hhands, hstands, henter, hway⟩ := hmeets.exists_way hs htidy
        have hg' : (some .way, h, g) ∈ (Form.oneOf ways).inner h := List.mem_map_of_mem hg
        obtain ⟨further, scope', t, h', keywords, hdescends, hmeets'⟩ :=
          ih (hinner _ hg') (hreaches.inner hg') hstands hx hway hleads
        refine ⟨.way :: further, scope', t, h', keywords, ⟨?_, ?_, hdescends.stands, ?_⟩, hmeets'⟩
        · exact .inner hhands henter hdescends.applies
        · simpa using hdescends.reaches
        · exact .way hdescends.follows

/-- What is applied to the parts of a value stands for forms. If a value meets a schema, then so do
its parts, but for choices between ways. -/
theorem exists_form_of_applies
    (hall : d.form.all (fun _ h f => f.isTidy h) depth [] (.document d) = true)
    {s t : Located} {scope : Scope} {x y : Value} {segments : List Segment}
    (happlies : Applies r t y scope s x segments) (ht : t.value ≠ .bool false)
    {turns : List Turn} {h : Home} {f : Form} (hreaches : Reaches d turns h f)
    (hs : Stands s scope h f) (hx : x.IsTree) :
    ∃ further scope' h' g, Descends r d scope s turns x segments further scope' t h' g y ∧
      (.way ∉ further → Meets r scope s x → Meets r scope' t y) := by
  induction happlies generalizing turns h f with
  | @here scope =>
    exact ⟨[], scope, h, f, ⟨.here, by rwa [List.append_nil], hs, .nil⟩, fun _ hmeets => hmeets⟩
  | reference hkeyword hmem hfollow happlies ih =>
    have hplain := (Bool.and_eq_true_iff.mp (hreaches.of_all hall)).1
    obtain ⟨h', g, hg, htarget⟩ := hs.of_follow hr hplain hkeyword hmem hfollow
    obtain ⟨further, scope', h'', g', hdescends, hmeets'⟩ := ih (hreaches.inner hg) htarget hx
    refine ⟨further, scope', h'', g', ⟨?_, ?_, hdescends.stands, hdescends.follows⟩,
      fun hway hmeets => ?_⟩
    · exact .reference hkeyword hmem hfollow happlies
    · simpa using hdescends.reaches
    · exact hmeets' hway (hmeets.of_follow hs htarget hkeyword hmem hfollow)
  | @inner scope s x inner step part inside segments hhands henter happlies ih =>
    have htidy := hreaches.of_all hall
    rcases hs.of_hands htidy hhands with
      ⟨hfalse, _⟩ | ⟨turn, ⟨g, hg, hstands, henter'⟩, hfollows⟩
    · rw [Applies.eq_of_false hfalse happlies] at ht
      exact absurd hfalse ht
    · cases henter'.symm.trans henter
      obtain ⟨further, scope', h', g', hdescends, hmeets'⟩ :=
        ih (hreaches.inner hg) hstands (hhands.isTree hx)
      refine ⟨turn :: further, scope', h', g', ⟨?_, ?_, hdescends.stands, ?_⟩,
        fun hway hmeets => ?_⟩
      · exact .inner hhands henter happlies
      · simpa using hdescends.reaches
      · exact hfollows.append hdescends.follows
      · rw [List.mem_cons, not_or] at hway
        refine hmeets' hway.2 (hs.meets_of_hands htidy hx hmeets hhands ?_)
        rintro rfl
        cases hfollows with
        | way _ => exact hway.1 rfl

end Descent

end BusinessModel.Schema.Bundled
