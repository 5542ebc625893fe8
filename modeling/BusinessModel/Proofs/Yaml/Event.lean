import BusinessModel.Proofs.Outcome
import BusinessModel.Proofs.Yaml.Placed
import BusinessModel.Proofs.Yaml.Token.Course

/-!
The events of a document that has been written.
-/

namespace BusinessModel.Yaml

/-- The tokens are of the kinds, and none has comments. -/
structure Spells (tokens : List Token) (kinds : List TokenKind) : Prop where
  kinds : tokens.map (·.kind) = kinds
  bare : ∀ t ∈ tokens, t.IsBare

namespace Spells

variable {tokens : List Token} {k : TokenKind} {ks ks' : List TokenKind}

theorem eq_nil (h : Spells tokens []) : tokens = [] := List.map_eq_nil_iff.mp h.kinds

theorem exists_cons (h : Spells tokens (k :: ks)) :
    ∃ m m' rest, tokens = ⟨k, m, m', false, false⟩ :: rest ∧ Spells rest ks := by
  obtain ⟨t, rest, rfl, rfl, hrest⟩ := List.map_eq_cons_iff.mp h.kinds
  have ht := h.bare t List.mem_cons_self
  obtain ⟨k, m, m', before, after⟩ := t
  obtain ⟨rfl, rfl⟩ := ht
  exact ⟨m, m', rest, rfl, hrest, fun t ht => h.bare t (List.mem_cons_of_mem _ ht)⟩

theorem exists_append (h : Spells tokens (ks ++ ks')) :
    ∃ before after, tokens = before ++ after ∧ Spells before ks ∧ Spells after ks' := by
  obtain ⟨before, after, rfl, hbefore, hafter⟩ := List.map_eq_append_iff.mp h.kinds
  obtain ⟨hleft, hright⟩ := List.forall_mem_append.mp h.bare
  exact ⟨before, after, rfl, ⟨hbefore, hleft⟩, ⟨hafter, hright⟩⟩

end Spells

namespace Reading

/-- A state of reading in a document. -/
def reader (tokens : List Token) (rule : Rule) (rules : List Rule) (starts : List Mark) :
    EventReader :=
  { stream := { tokens }, rule, rules, starts, handles := defaultHandles }

/-- Reading yields the events and comes to the other state. -/
inductive Runs : EventReader → List Event → EventReader → Prop where
  | nil (s : EventReader) : Runs s [] s
  | cons {s s' s'' : EventReader} {e : Event} {es : List Event}
      (hstep : (step s.rule).run s = .ok (e, s')) (he : e ≠ .streamEnd) (h : Runs s' es s'') :
      Runs s (e :: es) s''

variable {s s' s'' : EventReader} {e : Event} {es es' : List Event}

theorem Runs.append (h : Runs s es s') (h' : Runs s' es' s'') : Runs s (es ++ es') s'' := by
  induction h with
  | nil _ => exact h'
  | cons hstep he _ ih => exact .cons hstep he (ih h')

theorem Runs.single (hstep : (step s.rule).run s = .ok (e, s')) (he : e ≠ .streamEnd) :
    Runs s [e] s' := .cons hstep he (.nil s')

variable {tokens rest : List Token} {rule again : Rule} {rules : List Rule} {starts : List Mark}
  {indentless sequence : Bool} {text : String} {style : Style} {m m' : Mark}

/-- The event at the start of a sequence or a mapping. -/
def startEvent (sequence : Bool) (m : Mark) : Event :=
  if sequence then .sequenceStart none none m else .mappingStart none none m

/-- The event at the end of a sequence or a mapping. -/
def endEvent (sequence : Bool) : Event := if sequence then .sequenceEnd else .mappingEnd

/-- The rule inside a sequence or a mapping that is not empty. -/
def insideRule (sequence : Bool) : Rule := if sequence then .blockSequence else .blockMappingKey

theorem startEvent_ne (sequence : Bool) (m : Mark) : startEvent sequence m ≠ .streamEnd := by
  cases sequence <;> exact Event.noConfusion

theorem endEvent_ne (sequence : Bool) : endEvent sequence ≠ .streamEnd := by
  cases sequence <;> exact Event.noConfusion

/-! ### Steps -/

theorem node_scalar :
    (node true indentless).run
      (reader (⟨.scalar text style, m, m', false, false⟩ :: tokens) rule (again :: rules) starts) =
    .ok (Placed.textEvent style text m, reader tokens again rules starts) := by
  cases indentless <;> cases style <;> rfl

theorem node_flow :
    (node true indentless).run
      (reader (⟨flowStart sequence, m, m', false, false⟩ :: tokens) rule rules starts) =
    .ok (startEvent sequence m, reader (⟨flowStart sequence, m, m', false, false⟩ :: tokens)
      (if sequence then .flowSequence true else .flowMapping true) rules starts) := by
  cases indentless <;> cases sequence <;> rfl

theorem node_block :
    (node true indentless).run
      (reader (⟨blockStart sequence, m, m', false, false⟩ :: tokens) rule rules starts) =
    .ok (startEvent sequence m, reader tokens (insideRule sequence) rules (m :: starts)) := by
  cases indentless <;> cases sequence <;> rfl

/-- The end of an empty collection. -/
theorem step_flowEnd {k k' : Mark} :
    (step (if sequence then .flowSequence true else .flowMapping true)).run
      (reader (⟨flowStart sequence, m, m', false, false⟩ ::
        ⟨flowEnd sequence, k, k', false, false⟩ :: tokens)
        (if sequence then .flowSequence true else .flowMapping true) (again :: rules) starts) =
    .ok (endEvent sequence, reader tokens again rules starts) := by
  cases sequence <;> rfl

/-- The end of a collection that is not empty. -/
theorem step_blockEnd {t : Token} {k : Mark} :
    (step (insideRule sequence)).run
      (reader (⟨.blockEnd, m, m', false, false⟩ :: t :: tokens) (insideRule sequence) (again :: rules)
        (k :: starts)) =
    .ok (endEvent sequence, reader (t :: tokens) again rules starts) := by
  cases sequence <;> rfl

/-- A token that a node starts with. -/
inductive OpensNode : TokenKind → Prop where
  | scalar (text : String) (style : Style) : OpensNode (.scalar text style)
  | flow (sequence : Bool) : OpensNode (flowStart sequence)
  | block (sequence : Bool) : OpensNode (blockStart sequence)

/-- The rule behind an indicator in a sequence, or behind a colon in a mapping. -/
def slotRule (sequence : Bool) : Rule := if sequence then .blockSequence else .blockMappingValue

/-- The indicator before an item or a value. -/
def slotKind (sequence : Bool) : TokenKind := if sequence then .blockEntry else .value

/-- The token that starts the line of an item or of an entry. -/
def lineKind (sequence : Bool) : TokenKind := if sequence then .blockEntry else .key

/-- A node follows its indicator. -/
theorem step_slot {k : TokenKind} {n n' : Mark} (hk : OpensNode k) :
    (step (slotRule sequence)).run
      (reader (⟨slotKind sequence, m, m', false, false⟩ :: ⟨k, n, n', false, false⟩ :: tokens)
        (slotRule sequence) rules starts) =
    (node true (!sequence)).run (reader (⟨k, n, n', false, false⟩ :: tokens) (slotRule sequence)
      (insideRule sequence :: rules) starts) := by
  cases hk with
  | scalar text style => cases sequence <;> rfl
  | flow empty => cases sequence <;> cases empty <;> rfl
  | block inner => cases sequence <;> cases inner <;> rfl

/-- Nothing follows an indicator. -/
theorem step_slot_empty {k : TokenKind} {n n' : Mark} (hk : k = lineKind sequence ∨ k = .blockEnd) :
    ∃ place, (step (slotRule sequence)).run
      (reader (⟨slotKind sequence, m, m', false, false⟩ :: ⟨k, n, n', false, false⟩ :: tokens)
        (slotRule sequence) rules starts) =
    .ok (emptyScalar place, reader (⟨k, n, n', false, false⟩ :: tokens) (insideRule sequence) rules
      starts) := by
  cases sequence with
  | true => rcases hk with rfl | rfl <;> exact ⟨m', rfl⟩
  | false => rcases hk with rfl | rfl <;> exact ⟨n', rfl⟩

theorem step_key {n n' : Mark} :
    (step .blockMappingKey).run
      (reader (⟨.key, m, m', false, false⟩ :: ⟨.scalar text style, n, n', false, false⟩ :: tokens)
        .blockMappingKey rules starts) =
    .ok (Placed.textEvent style text n, reader tokens .blockMappingValue rules starts) := by
  cases style <;> rfl

/-! ### Runs -/

variable {f : Format} {c : Content} {items : List Content} {entries : List (String × Content)}

/-- What follows an item or a value: the next line or the end of the collection. -/
def Follows (sequence : Bool) (tokens : List Token) : Prop :=
  ∃ k n n' rest, tokens = ⟨k, n, n', false, false⟩ :: rest ∧ (k = lineKind sequence ∨ k = .blockEnd)

/-- From the tokens of content, its events are read. -/
def NodeRuns (f : Format) (c : Content) : Prop :=
  ∀ {tokens rest : List Token} (rule again : Rule) (rules : List Rule) (starts : List Mark)
    (indentless : Bool), Spells tokens (f.tokens c) → rest ≠ [] → c ≠ .scalar .null →
    ∃ (p : Placed) (e : Event) (es : List Event) (s : EventReader), p.content = c ∧
      p.events f = e :: es ∧ e ≠ .streamEnd ∧
      (node true indentless).run (reader (tokens ++ rest) rule (again :: rules) starts) = .ok (e, s) ∧
        Runs s es (reader rest again rules starts)

/-- From an indicator and the tokens of content, its events are read. -/
def SlotRuns (f : Format) (c : Content) : Prop :=
  ∀ {tokens rest : List Token} (sequence : Bool) (rules : List Rule) (starts : List Mark),
    Spells tokens (slotKind sequence :: f.tokens c) → Follows sequence rest →
    ∃ p : Placed, p.content = c ∧ Runs (reader (tokens ++ rest) (slotRule sequence) rules starts)
      (p.events f) (reader rest (insideRule sequence) rules starts)

/-- From the tokens of items, their events are read. -/
def ItemsRun (f : Format) (items : List Content) : Prop :=
  ∀ {tokens rest : List Token} (rules : List Rule) (starts : List Mark),
    Spells tokens (f.itemTokens items) → Follows true rest →
    ∃ ps : List Placed, Placed.contentOfItems ps = items ∧
      Runs (reader (tokens ++ rest) .blockSequence rules starts) (Placed.eventsOfItems f ps)
        (reader rest .blockSequence rules starts)

/-- From the tokens of entries, their events are read. -/
def EntriesRun (f : Format) (entries : List (String × Content)) : Prop :=
  ∀ {tokens rest : List Token} (rules : List Rule) (starts : List Mark),
    Spells tokens (f.entryTokens entries) → Follows false rest →
    ∃ ps : List (String × Mark × Placed), Placed.contentOfEntries ps = entries ∧
      Runs (reader (tokens ++ rest) .blockMappingKey rules starts) (Placed.eventsOfEntries f ps)
        (reader rest .blockMappingKey rules starts)

theorem exists_opensNode (hc : c ≠ .scalar .null) :
    ∃ k ks, f.tokens c = k :: ks ∧ OpensNode k := by
  cases c with
  | scalar s =>
    have hs : s ≠ .null := fun h => hc (h ▸ rfl)
    exact ⟨_, [], by rw [Format.tokens, if_neg hs], .scalar _ _⟩
  | sequence items =>
    cases items with
    | nil => exact ⟨_, _, rfl, .flow true⟩
    | cons c rest => exact ⟨_, _, rfl, .block true⟩
  | mapping entries =>
    cases entries with
    | nil => exact ⟨_, _, rfl, .flow false⟩
    | cons e rest => exact ⟨_, _, rfl, .block false⟩

theorem slotRuns (h : NodeRuns f c) : SlotRuns f c := by
  intro tokens rest sequence rules starts htokens hfollows
  obtain ⟨m, m', tokens, rfl, hnode⟩ := htokens.exists_cons
  by_cases hc : c = .scalar .null
  · subst hc
    obtain rfl := hnode.eq_nil
    obtain ⟨k, n, n', rest, rfl, hk⟩ := hfollows
    obtain ⟨place, hstep⟩ := @step_slot_empty rest rules starts sequence m m' k n n' hk
    exact ⟨.scalar .null place, rfl, .single hstep Event.noConfusion⟩
  · obtain ⟨k, ks, hks, hk⟩ := exists_opensNode (f := f) hc
    have hrest : rest ≠ [] := by
      obtain ⟨k, n, n', rest, rfl, _⟩ := hfollows
      exact List.cons_ne_nil _ _
    obtain ⟨p, e, es, s, hp, hevents, he, hstep, hruns⟩ := h (slotRule sequence)
      (insideRule sequence) rules starts (!sequence) hnode hrest hc
    obtain ⟨n, n', tokens, rfl, -⟩ := (hks ▸ hnode).exists_cons
    exact ⟨p, hp, hevents ▸ .cons ((step_slot hk).trans hstep) he hruns⟩

theorem follows_items {tokens rest : List Token} (h : Spells tokens (f.itemTokens items))
    (hrest : Follows true rest) : Follows true (tokens ++ rest) := by
  cases items with
  | nil =>
    obtain rfl := h.eq_nil
    exact hrest
  | cons c items =>
    obtain ⟨n, n', tokens, rfl, -⟩ := h.exists_cons
    exact ⟨_, n, n', _, rfl, .inl rfl⟩

theorem follows_entries {tokens rest : List Token} (h : Spells tokens (f.entryTokens entries))
    (hrest : Follows false rest) : Follows false (tokens ++ rest) := by
  cases entries with
  | nil =>
    obtain rfl := h.eq_nil
    exact hrest
  | cons e entries =>
    obtain ⟨n, n', tokens, rfl, -⟩ := h.exists_cons
    exact ⟨_, n, n', _, rfl, .inl rfl⟩

theorem itemsRun_nil : ItemsRun f [] := by
  intro tokens rest rules starts htokens _
  obtain rfl := htokens.eq_nil
  exact ⟨[], rfl, .nil _⟩

theorem itemsRun_cons (hc : SlotRuns f c) (hitems : ItemsRun f items) : ItemsRun f (c :: items) := by
  intro tokens rest rules starts htokens hrest
  obtain ⟨before, after, rfl, hbefore, hafter⟩ := htokens.exists_append
  obtain ⟨p, hp, hfirst⟩ := hc true rules starts hbefore (follows_items hafter hrest)
  obtain ⟨ps, hps, hmore⟩ := hitems rules starts hafter hrest
  refine ⟨p :: ps, by rw [Placed.contentOfItems, hp, hps], ?_⟩
  rw [List.append_assoc]
  exact hfirst.append hmore

theorem entriesRun_nil : EntriesRun f [] := by
  intro tokens rest rules starts htokens _
  obtain rfl := htokens.eq_nil
  exact ⟨[], rfl, .nil _⟩

theorem entriesRun_cons {key : String} (hc : SlotRuns f c) (hentries : EntriesRun f entries) :
    EntriesRun f ((key, c) :: entries) := by
  intro tokens rest rules starts htokens hrest
  obtain ⟨n, n', tokens, rfl, hkey⟩ := htokens.exists_cons
  obtain ⟨m, m', tokens, rfl, hmore⟩ := hkey.exists_cons
  have hlines : Spells tokens ((.value :: f.tokens c) ++ f.entryTokens entries) := hmore
  obtain ⟨before, after, rfl, hbefore, hafter⟩ := hlines.exists_append
  obtain ⟨p, hp, hfirst⟩ := hc false rules starts hbefore (follows_entries hafter hrest)
  obtain ⟨ps, hps, hmore⟩ := hentries rules starts hafter hrest
  refine ⟨(key, m, p) :: ps, by rw [Placed.contentOfEntries, hp, hps], ?_⟩
  have hruns := hfirst.append hmore
  rw [← List.append_assoc] at hruns
  exact .cons step_key Event.noConfusion hruns

theorem nodeRuns_scalar {s : Scalar} : NodeRuns f (.scalar s) := by
  intro tokens rest rule again rules starts indentless htokens _ hnull
  have hs : s ≠ .null := fun h => hnull (h ▸ rfl)
  rw [Format.tokens, if_neg hs] at htokens
  obtain ⟨m, m', tokens, rfl, hnil⟩ := htokens.exists_cons
  obtain rfl := hnil.eq_nil
  exact ⟨.scalar s m, _, [], _, rfl, rfl, Event.noConfusion, node_scalar, .nil _⟩

/-- An empty collection yields two events. -/
theorem runs_flow {tokens rest : List Token} (sequence : Bool) (rule again : Rule) (rules : List Rule)
    (starts : List Mark) (indentless : Bool)
    (htokens : Spells tokens [flowStart sequence, flowEnd sequence]) :
    ∃ m s, (node true indentless).run (reader (tokens ++ rest) rule (again :: rules) starts) =
      .ok (startEvent sequence m, s) ∧ Runs s [endEvent sequence] (reader rest again rules starts) := by
  obtain ⟨m, m', tokens, rfl, hend⟩ := htokens.exists_cons
  obtain ⟨n, n', tokens, rfl, hnil⟩ := hend.exists_cons
  obtain rfl := hnil.eq_nil
  refine ⟨m, _, node_flow, .single ?_ (endEvent_ne _)⟩
  exact step_flowEnd

/-- A collection yields an event at its start, those of its lines, and an event at its end. -/
theorem runs_block {tokens rest : List Token} {lines : List TokenKind}
    (sequence : Bool) (rule again : Rule) (rules : List Rule)
    (starts : List Mark) (indentless : Bool)
    (htokens : Spells tokens (blockStart sequence :: lines ++ [.blockEnd])) (hrest : rest ≠ []) :
    ∃ m inner k k', (node true indentless).run (reader (tokens ++ rest) rule (again :: rules) starts) =
        .ok (startEvent sequence m, reader (inner ++ ⟨.blockEnd, k, k', false, false⟩ :: rest)
          (insideRule sequence) (again :: rules) (m :: starts)) ∧ Spells inner lines ∧
      Runs (reader (⟨.blockEnd, k, k', false, false⟩ :: rest) (insideRule sequence) (again :: rules)
        (m :: starts)) [endEvent sequence] (reader rest again rules starts) := by
  obtain ⟨m, m', tokens, rfl, hmore⟩ := htokens.exists_cons
  have hlines : Spells tokens (lines ++ [.blockEnd]) := hmore
  obtain ⟨inner, after, rfl, hinner, hafter⟩ := hlines.exists_append
  obtain ⟨k, k', after, rfl, hnil⟩ := hafter.exists_cons
  obtain rfl := hnil.eq_nil
  obtain ⟨t, rest, rfl⟩ := List.exists_cons_of_ne_nil hrest
  refine ⟨m, inner, k, k', ?_, hinner, .single step_blockEnd (endEvent_ne _)⟩
  rw [List.cons_append, List.append_assoc]
  exact node_block

theorem nodeRuns_sequence (h : ItemsRun f items) : NodeRuns f (.sequence items) := by
  intro tokens rest rule again rules starts indentless htokens hrest _
  cases items with
  | nil =>
    obtain ⟨m, s, hnode, hruns⟩ := runs_flow true rule again rules starts indentless htokens
    exact ⟨.sequence m [], _, _, s, rfl, rfl, Event.noConfusion, hnode, hruns⟩
  | cons c items =>
    obtain ⟨m, inner, k, k', hnode, hinner, hend⟩ :=
      runs_block true rule again rules starts indentless htokens hrest
    obtain ⟨ps, hps, hruns⟩ := h (again :: rules) (m :: starts) hinner
      ⟨.blockEnd, k, k', rest, rfl, .inr rfl⟩
    exact ⟨.sequence m ps, _, _, _, congrArg Content.sequence hps, rfl, Event.noConfusion, hnode,
      hruns.append hend⟩

theorem nodeRuns_mapping (h : EntriesRun f entries) : NodeRuns f (.mapping entries) := by
  intro tokens rest rule again rules starts indentless htokens hrest _
  cases entries with
  | nil =>
    obtain ⟨m, s, hnode, hruns⟩ := runs_flow false rule again rules starts indentless htokens
    exact ⟨.mapping m [], _, _, s, rfl, rfl, Event.noConfusion, hnode, hruns⟩
  | cons e entries =>
    obtain ⟨m, inner, k, k', hnode, hinner, hend⟩ :=
      runs_block false rule again rules starts indentless htokens hrest
    obtain ⟨ps, hps, hruns⟩ := h (again :: rules) (m :: starts) hinner
      ⟨.blockEnd, k, k', rest, rfl, .inr rfl⟩
    exact ⟨.mapping m ps, _, _, _, congrArg Content.mapping hps, rfl, Event.noConfusion, hnode,
      hruns.append hend⟩

-- The induction follows the content: a node, the items of a sequence, the entries of a mapping.
mutual

theorem nodeRuns (f : Format) : ∀ c : Content, NodeRuns f c
  | .scalar _ => nodeRuns_scalar
  | .sequence items => nodeRuns_sequence (itemsRun f items)
  | .mapping entries => nodeRuns_mapping (entriesRun f entries)

theorem itemsRun (f : Format) : ∀ items : List Content, ItemsRun f items
  | [] => itemsRun_nil
  | c :: items => itemsRun_cons (slotRuns (nodeRuns f c)) (itemsRun f items)

theorem entriesRun (f : Format) : ∀ entries : List (String × Content), EntriesRun f entries
  | [] => entriesRun_nil
  | (_, c) :: entries => entriesRun_cons (slotRuns (nodeRuns f c)) (entriesRun f entries)

end

/-! ### Documents -/

theorem Runs.collect_eq {fuel : Nat} {seen : List Event} (h : Runs s es s')
    (hend : (step s'.rule).run s' = .ok (.streamEnd, s'')) (hfuel : es.length < fuel) :
    EventStream.collect fuel seen s =
      { events := seen.reverse ++ es ++ [.streamEnd], version := s''.version } := by
  induction h generalizing fuel seen with
  | nil s =>
    obtain ⟨fuel, rfl⟩ := Nat.exists_eq_add_one_of_ne_zero (Nat.ne_zero_of_lt hfuel)
    rw [EventStream.collect, hend]
    simp
  | @cons s s' s'' e es hstep he _ ih =>
    obtain ⟨fuel, rfl⟩ := Nat.exists_eq_add_one_of_ne_zero (Nat.ne_zero_of_lt hfuel)
    rw [EventStream.collect, hstep]
    dsimp only
    rw [if_neg (by simpa using he), ih hend (Nat.lt_of_succ_lt_succ hfuel)]
    simp

end Reading

namespace Placed

-- A null yields an event, but has no token: hence one event more.
mutual

/-- Content yields two events for each of its tokens at most, and one more. -/
theorem length_events_le (f : Format) :
    ∀ p : Placed, (p.events f).length ≤ 2 * (f.tokens p.content).length + 1
  | .scalar s m => by
    rw [events]
    simp
  | .sequence m [] => show 2 ≤ 2 * 2 + 1 by decide
  | .sequence m (p :: items) => by
    have := length_eventsOfItems_le f (p :: items)
    have htokens : f.tokens (Placed.sequence m (p :: items)).content =
        blockStart true :: f.itemTokens (contentOfItems (p :: items)) ++ [.blockEnd] := rfl
    rw [htokens, events]
    simp only [List.length_cons, List.length_append, List.length_nil] at this ⊢
    omega
  | .mapping m [] => show 2 ≤ 2 * 2 + 1 by decide
  | .mapping m (e :: entries) => by
    have := length_eventsOfEntries_le f (e :: entries)
    have htokens : f.tokens (Placed.mapping m (e :: entries)).content =
        blockStart false :: f.entryTokens (contentOfEntries (e :: entries)) ++ [.blockEnd] := rfl
    rw [htokens, events]
    simp only [List.length_cons, List.length_append, List.length_nil] at this ⊢
    omega

theorem length_eventsOfItems_le (f : Format) : ∀ items : List Placed,
    (eventsOfItems f items).length ≤ 2 * (f.itemTokens (contentOfItems items)).length
  | [] => Nat.le_refl _
  | p :: items => by
    have hfirst := length_events_le f p
    have hmore := length_eventsOfItems_le f items
    rw [eventsOfItems, contentOfItems, Format.itemTokens]
    simp only [List.length_cons, List.length_append]
    omega

theorem length_eventsOfEntries_le (f : Format) : ∀ entries : List (String × Mark × Placed),
    (eventsOfEntries f entries).length ≤ 2 * (f.entryTokens (contentOfEntries entries)).length
  | [] => Nat.le_refl _
  | (key, m, p) :: entries => by
    have hfirst := length_events_le f p
    have hmore := length_eventsOfEntries_le f entries
    rw [eventsOfEntries, contentOfEntries, Format.entryTokens]
    simp only [List.length_cons, List.length_append]
    omega

end

mutual

/-- No event of content names an anchor. -/
theorem not_hasAnchor (f : Format) : ∀ p : Placed, ∀ e ∈ p.events f, e.hasAnchor = false
  | .scalar _ _ => List.forall_mem_singleton.mpr rfl
  | .sequence _ ps => List.forall_mem_cons.mpr ⟨rfl, List.forall_mem_append.mpr
      ⟨not_hasAnchor_items f ps, List.forall_mem_singleton.mpr rfl⟩⟩
  | .mapping _ ps => List.forall_mem_cons.mpr ⟨rfl, List.forall_mem_append.mpr
      ⟨not_hasAnchor_entries f ps, List.forall_mem_singleton.mpr rfl⟩⟩

private theorem not_hasAnchor_items (f : Format) :
    ∀ ps : List Placed, ∀ e ∈ eventsOfItems f ps, e.hasAnchor = false
  | [] => by simp [eventsOfItems]
  | p :: ps => List.forall_mem_append.mpr ⟨not_hasAnchor f p, not_hasAnchor_items f ps⟩

private theorem not_hasAnchor_entries (f : Format) :
    ∀ ps : List (String × Mark × Placed), ∀ e ∈ eventsOfEntries f ps, e.hasAnchor = false
  | [] => by simp [eventsOfEntries]
  | (_, _, p) :: ps => List.forall_mem_cons.mpr
      ⟨rfl, List.forall_mem_append.mpr ⟨not_hasAnchor f p, not_hasAnchor_entries f ps⟩⟩

end

end Placed

open Reading in
/-- The tokens of a document are read as the events of its content. -/
theorem exists_events {f : Format} {c : Content} {tokens : List Token} (hc : c ≠ .scalar .null)
    (htokens : Spells tokens (.streamStart :: f.tokens c ++ [.streamEnd])) :
    ∃ (p : Placed) (m : Mark), p.content = c ∧ EventStream.ofTokens { tokens } =
      { events := .streamStart :: .documentStart m :: p.events f ++ [.documentEnd, .streamEnd] } := by
  have hlength : tokens.length = (f.tokens c).length + 2 := by
    rw [← List.length_map (fun t : Token => t.kind), htokens.kinds]
    simp
  obtain ⟨m, m', tokens, rfl, hmore⟩ := htokens.exists_cons
  have hcontent : Spells tokens (f.tokens c ++ [.streamEnd]) := hmore
  obtain ⟨inner, after, rfl, hinner, hafter⟩ := hcontent.exists_append
  obtain ⟨n, n', after, rfl, hnil⟩ := hafter.exists_cons
  obtain rfl := hnil.eq_nil
  obtain ⟨p, e, es, s, hp, hevents, he, hnode, hruns⟩ := nodeRuns f c .blockNode .documentEnd [] []
    false hinner (List.cons_ne_nil _ _) hc
  obtain ⟨k, ks, hks, hk⟩ := exists_opensNode (f := f) hc
  obtain ⟨u, u', inner, rfl, -⟩ := (hks ▸ hinner).exists_cons
  have hdocument : (step .implicitDocument).run { reader (⟨k, u, u', false, false⟩ :: inner ++
      [⟨.streamEnd, n, n', false, false⟩]) .implicitDocument [] [] with handles := [] } =
      .ok (.documentStart u, reader (⟨k, u, u', false, false⟩ :: inner ++
        [⟨.streamEnd, n, n', false, false⟩]) .blockNode [.documentEnd] []) := by
    cases hk with
    | scalar text style => rfl
    | flow sequence => cases sequence <;> rfl
    | block sequence => cases sequence <;> rfl
  have hall : Runs { stream := { tokens := ⟨.streamStart, m, m', false, false⟩ ::
      (⟨k, u, u', false, false⟩ :: inner ++ [⟨.streamEnd, n, n', false, false⟩]) } }
      (.streamStart :: .documentStart u :: (p.events f ++ [.documentEnd]))
      (reader [⟨.streamEnd, n, n', false, false⟩] .document [] []) := by
    refine .cons rfl Event.noConfusion (.cons hdocument Event.noConfusion ?_)
    rw [hevents]
    exact .append (.cons hnode he hruns) (.single rfl Event.noConfusion)
  refine ⟨p, u, hp, ?_⟩
  rw [EventStream.ofTokens, hall.collect_eq rfl ?_]
  · simp [reader]
  · have := p.length_events_le f
    rw [hp] at this
    simp only [hlength, List.length_cons, List.length_append, List.length_nil] at *
    omega

end BusinessModel.Yaml
