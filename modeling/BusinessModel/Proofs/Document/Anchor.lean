import BusinessModel.Document.Load
import BusinessModel.Proofs.Outcome

/-!
Which texts are refused for their anchors. A text without unreadable characters is refused if its
events hold an anchor or an alias and, besides, an ampersand with a word behind it stands in one of
the places that a search through the characters looks at. The indicators of flow collections lead to
none of these places.
-/

namespace BusinessModel

/-! ### The search through the characters -/

/-- A character behind which the search for anchors takes an ampersand into account. -/
def leadsAnchor (c : Char) : Bool := Text.isBlank c || c == '-' || c == ':'

/-- What stands before an ampersand lets the search take it into account; `opens` stands for what
comes before the characters. -/
def MayAnchor (opens : Bool) (before : List Char) : Prop :=
  match before.getLast? with
  | some c => leadsAnchor c = true
  | none => opens = true

/-- The characters show an anchor: an ampersand with the first character of a word behind it, at
their start or behind a blank, a hyphen or a colon. -/
def ShowsAnchor (opens : Bool) (cs : List Char) : Prop :=
  ∃ before c after, cs = before ++ '&' :: c :: after ∧ Text.isWord c = true ∧
    MayAnchor opens before

theorem mayAnchor_cons {opens : Bool} {c : Char} {before : List Char} :
    MayAnchor opens (c :: before) ↔ MayAnchor (leadsAnchor c) before := by
  rw [MayAnchor, MayAnchor, List.getLast?_cons]
  cases before.getLast? <;> rfl

/-- An anchor that characters show starts with the first of them or is shown by the others. -/
theorem showsAnchor_cons {opens : Bool} {a : Char} {rest : List Char} :
    ShowsAnchor opens (a :: rest) ↔
      (opens = true ∧ a = '&' ∧ ∃ c after, rest = c :: after ∧ Text.isWord c = true) ∨
        ShowsAnchor (leadsAnchor a) rest := by
  constructor
  · rintro ⟨before, c, after, hcs, hword, hbefore⟩
    cases before with
    | nil =>
      obtain ⟨rfl, rfl⟩ := List.cons.inj hcs
      exact Or.inl ⟨hbefore, rfl, c, after, rfl, hword⟩
    | cons b before =>
      obtain ⟨rfl, rfl⟩ := List.cons.inj hcs
      exact Or.inr ⟨before, c, after, rfl, hword, mayAnchor_cons.mp hbefore⟩
  · rintro (⟨hopens, rfl, c, after, rfl, hword⟩ | ⟨before, c, after, rfl, hword, hbefore⟩)
    · exact ⟨[], c, after, rfl, hword, hopens⟩
    · exact ⟨a :: before, c, after, rfl, hword, mayAnchor_cons.mpr hbefore⟩

/-- The search through the characters finds what they show. -/
theorem anchorLike_iff (opens : Bool) (cs : List Char) :
    anchorLike opens cs = true ↔ ShowsAnchor opens cs := by
  fun_induction anchorLike opens cs with
  | case1 opens c rest ih =>
    have hampersand : leadsAnchor '&' = false := by decide
    rw [Bool.or_eq_true, Bool.and_eq_true, ih, showsAnchor_cons (a := '&'), hampersand]
    constructor
    · rintro (⟨hopens, hword⟩ | hrest)
      · exact Or.inl ⟨hopens, rfl, c, rest, rfl, hword⟩
      · exact Or.inr hrest
    · rintro (⟨hopens, _, d, after, hd, hword⟩ | hrest)
      · obtain ⟨rfl, rfl⟩ := List.cons.inj hd
        exact Or.inl ⟨hopens, hword⟩
      · exact Or.inr hrest
  | case2 opens ch rest hnot ih =>
    rw [show (Text.isBlank ch || ch == '-' || ch == ':') = leadsAnchor ch from rfl] at ih ⊢
    rw [ih, showsAnchor_cons]
    refine ⟨Or.inr, ?_⟩
    rintro (⟨_, rfl, c, after, rfl, _⟩ | hrest)
    · exact absurd rfl (hnot c after rfl)
    · exact hrest
  | case3 opens =>
    refine ⟨fun h => (by cases h), ?_⟩
    rintro ⟨before, c, after, hcs, _⟩
    cases before <;> cases hcs

/-! ### Refusals while a document is built -/

namespace Layout

/-- A step of building does not refuse a document for its anchors. -/
structure IgnoresAnchors {α : Type} (b : Build α) : Prop where
  ne_anchors : ∀ s r, b.run s = .error r → r ≠ .anchors

theorem IgnoresAnchors.pure {α : Type} (a : α) : IgnoresAnchors (Pure.pure a) := by
  constructor
  intro s r h
  cases h

theorem IgnoresAnchors.get : IgnoresAnchors get := by
  constructor
  intro s r h
  cases h

theorem IgnoresAnchors.modify (f : Building → Building) : IgnoresAnchors (modify f) := by
  constructor
  intro s r h
  cases h

theorem IgnoresAnchors.bind {α β : Type} {b : Build α} {f : α → Build β} (hb : IgnoresAnchors b)
    (hf : ∀ a, IgnoresAnchors (f a)) : IgnoresAnchors (b >>= f) := by
  constructor
  intro s r h
  rw [StateT.run_bind] at h
  rcases bind_eq_error_iff.mp h with h | ⟨⟨a, s'⟩, _, h⟩
  · exact hb.ne_anchors s r h
  · exact (hf a).ne_anchors s' r h

theorem IgnoresAnchors.throw {α : Type} {r : Refusal} (h : r ≠ .anchors) :
    IgnoresAnchors (throw r : Build α) := by
  constructor
  intro s r' hr
  cases hr
  exact h

theorem ignoresAnchors_record (l : Layout) (path : String) (place fallback : Option Yaml.Mark) :
    IgnoresAnchors (l.record path place fallback) := by
  unfold record
  extract_lets place?
  cases place? with
  | some m => exact .modify _
  | none => exact .pure _

theorem ignoresAnchors_buildEntries (l : Layout) {convert : String → Yaml.Loaded → Build Content}
    (hconvert : ∀ path v, IgnoresAnchors (convert path v)) (path : String)
    (entries : List (Yaml.Key × Option (Yaml.Mark × Yaml.Mark) × Yaml.Loaded)) :
    ∀ seen, IgnoresAnchors (l.buildEntries convert path seen entries) := by
  induction entries with
  | nil => exact fun seen => .pure _
  | cons entry rest ih =>
    intro seen
    obtain ⟨key, places, v⟩ := entry
    exact .bind (l.ignoresAnchors_record ..) fun _ => .bind (hconvert ..) fun c => ih _

theorem ignoresAnchors_buildItems (l : Layout) {convert : String → Yaml.Loaded → Build Content}
    (hconvert : ∀ path v, IgnoresAnchors (convert path v)) (path : String)
    (items : List (Option Yaml.Mark × Yaml.Loaded)) :
    ∀ n seen, IgnoresAnchors (l.buildItems convert path n seen items) := by
  induction items with
  | nil => exact fun n seen => .pure _
  | cons item rest ih =>
    intro n seen
    obtain ⟨place, v⟩ := item
    exact .bind (l.ignoresAnchors_record ..) fun _ => .bind (hconvert ..) fun c => ih _ _

theorem ignoresAnchors_build (l : Layout) (room : Nat) :
    ∀ path v, IgnoresAnchors (l.build room path v) := by
  have hcount : Refusal.nodeCount l.maxNodes ≠ .anchors := by simp
  have hdepth : Refusal.depth l.maxDepth ≠ .anchors := by simp
  induction room with
  | zero =>
    intro path v
    refine .bind (.modify _) fun _ => .bind .get fun s => ?_
    dsimp only
    split
    · exact .bind (.throw hcount) fun _ => .throw hdepth
    · exact .throw hdepth
  | succ room ih =>
    intro path v
    refine .bind (.modify _) fun _ => .bind .get fun s => ?_
    extract_lets v' more
    have hmore : ∀ u, IgnoresAnchors (more u) := by
      intro u
      dsimp only [more]
      cases v' with
      | scalar d => exact .pure _
      | mapping anchor place entries =>
        exact .bind (l.ignoresAnchors_buildEntries ih ..) fun _ => .pure _
      | sequence anchor place items =>
        exact .bind (l.ignoresAnchors_buildItems ih ..) fun _ => .pure _
      | aliasOf n => exact .pure _
    split
    · exact .bind (.throw hcount) hmore
    · exact hmore ()

theorem ignoresAnchors_buildRoot (l : Layout) (v : Yaml.Loaded) : IgnoresAnchors (l.buildRoot v) := by
  refine .bind (l.ignoresAnchors_record ..) fun _ => ?_
  split
  · exact .pure _
  · exact l.ignoresAnchors_build ..

end Layout

/-! ### Refused texts -/

/-- The message on anchors is that of no other refusal. -/
theorem Refusal.eq_anchors_of_issue {r : Refusal} (h : r.issue = Refusal.anchors.issue) :
    r = .anchors := by
  have hmessage : r.message = Refusal.anchors.message := congrArg Issue.message h
  -- The messages that start with `YAML` go on differently.
  have hsixth : r.message.toList[5]? = some 'a' := by
    rw [hmessage]
    decide
  have hmore (start rest : String) (hstart : start.toList[5]? = some 'd') :
      (start ++ rest).toList[5]? = some 'd' := by
    have hlength : 5 < start.toList.length := by
      by_contra hshort
      rw [List.getElem?_eq_none (by omega)] at hstart
      cases hstart
    rw [String.toList_append, List.getElem?_append_left hlength, hstart]
  have hother : r.message.toList[5]? ≠ some 'd' := by
    rw [hsixth]
    decide
  cases r with
  | size length limit =>
    exact absurd (hmore _ _ (hmore _ _ (hmore _ _ (hmore _ _ (by decide))))) hother
  | anchors => rfl
  | nodeCount limit => exact absurd (hmore _ _ (hmore _ _ (by decide))) hother
  | depth limit => exact absurd (hmore _ _ (hmore _ _ (by decide))) hother
  | nesting => exact absurd hsixth (by decide)

theorem issueOf?_ne_anchors (e : Yaml.Error) : issueOf? e ≠ some Refusal.anchors.issue := by
  intro h
  cases e with
  | marked e => cases congrArg Issue.code (Option.some.inj h)
  | character c index => cases congrArg Issue.code (Option.some.inj h)
  | nesting => cases Refusal.eq_anchors_of_issue (Option.some.inj h)
  | _ => cases h

theorem ofLoaded_ne_anchors (limits : Limits) (text : String) (filename : Option String)
    (v : Yaml.Loaded) :
    Document.ofLoaded limits text filename v ≠ .failed Refusal.anchors.issue := by
  unfold Document.ofLoaded
  dsimp only
  split
  · next r hr =>
    have hr := (Layout.ignoresAnchors_buildRoot _ v).ne_anchors _ r hr
    intro h
    have hissue : r.issue = Refusal.anchors.issue := (List.cons.inj (congrArg ParseResult.errors h)).1
    exact hr (Refusal.eq_anchors_of_issue hissue)
  · intro h
    cases congrArg ParseResult.errors h

/-- A text is refused for its anchors exactly if it is not too long, its events hold an anchor or an
alias, and it shows an anchor. -/
theorem Document.parse_eq_anchors_iff (limits : Limits) (text : String)
    (filename : Option String) :
    Document.parse limits text filename = .ok (.failed Refusal.anchors.issue) ↔
      (text.toList.length : Int) ≤ limits.maxSize ∧ ShowsAnchor true text.toList ∧
        ∃ events, Yaml.events text.toList = .ok events ∧ events.hasAnchor = true := by
  have hfailed {e : Yaml.Error} {i : Issue} (hissue : issueOf? e = some i) :
      ParseResult.failed i ≠ .failed Refusal.anchors.issue := by
    intro h
    have hi : i = Refusal.anchors.issue := (List.cons.inj (congrArg ParseResult.errors h)).1
    exact issueOf?_ne_anchors e (hi ▸ hissue)
  unfold Document.parse
  dsimp only
  by_cases hsize : (text.toList.length : Int) > limits.maxSize
  · rw [if_pos hsize]
    constructor
    · intro h
      have hissue := (List.cons.inj (congrArg ParseResult.errors (Except.ok.inj h))).1
      cases Refusal.eq_anchors_of_issue hissue
    · rintro ⟨hwithin, _⟩
      omega
  · rw [if_neg hsize]
    have hwithin : (text.toList.length : Int) ≤ limits.maxSize := by omega
    cases hevents : Yaml.events text.toList with
    | error e =>
      constructor
      · intro h
        cases hissue : issueOf? e with
        | none => simp [hissue] at h
        | some i => exact absurd (by simpa [hissue] using h) (hfailed hissue)
      · rintro ⟨_, _, events, hevents', _⟩
        cases hevents'
    | ok events =>
      rw [← anchorLike_iff]
      by_cases hrefused : anchorLike true text.toList = true ∧ events.hasAnchor = true
      · simp [hrefused, hwithin]
      · have hfound : (anchorLike true text.toList && events.hasAnchor) = false := by
          simpa using hrefused
        dsimp only
        rw [hfound]
        constructor
        · intro h
          cases hload : Yaml.load .lenient events with
          | error e =>
            cases hissue : issueOf? e with
            | none => simp [hload, hissue] at h
            | some i => exact absurd (by simpa [hload, hissue] using h) (hfailed hissue)
          | ok v =>
            rw [hload] at h
            exact absurd (Except.ok.inj h) (ofLoaded_ne_anchors limits text filename v)
        · rintro ⟨_, hshown, events', hevents', hanchor⟩
          cases hevents'
          exact absurd ⟨hshown, hanchor⟩ hrefused

/-- An anchor behind the bracket of a flow sequence is not shown: the text is read as a document. -/
theorem Document.parse_reads_flow_anchor :
    (Yaml.events "[&x 1, *x]\n".toList).toOption.any (·.hasAnchor) = true ∧
      (Document.parse {} "[&x 1, *x]\n" (some "e.scenarios.ubml.yaml")).toOption.any
        (fun r => r.document.isSome && r.errors.isEmpty) = true := by
  decide +kernel

end BusinessModel
