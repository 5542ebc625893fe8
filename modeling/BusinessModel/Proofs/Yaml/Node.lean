import BusinessModel.Proofs.Document.Building
import BusinessModel.Proofs.Yaml.Placed

/-!
The nodes of a document that has been written.
-/

namespace BusinessModel.Yaml

namespace Composing

/-- A state of putting nodes together from the events of a document without anchors. -/
def composer (es : List Event) : Composer :=
  { events := es, failure := none, edition := .v12 }

variable {f : Format} {fuel depth : Nat} {style : Style} {text : String} {m : Mark}
  {e : Event} {es rest : List Event} {n k v : Node} {seen ns : List Node}
  {entrySeen entryNodes : List (Node × Node)}

theorem run_node_text (hdepth : depth ≤ maxNesting) :
    (node (fuel + 1) depth).run (composer (Placed.textEvent style text m :: rest)) =
      .ok (Placed.textNode style text m, composer rest) := by
  rw [node, if_neg (Nat.not_lt.mpr hdepth)]
  cases style <;> rfl

theorem run_node_sequence (hdepth : depth ≤ maxNesting)
    (h : (items fuel (depth + 1) []).run (composer es) = .ok (ns, composer rest)) :
    (node (fuel + 1) depth).run (composer (.sequenceStart none none m :: es)) =
      .ok (.sequence none .sequence m ns, composer rest) := by
  rw [node, if_neg (Nat.not_lt.mpr hdepth)]
  show ((items fuel (depth + 1) []).run (composer es) >>= fun r => _) = _
  rw [h]
  rfl

theorem run_node_mapping (hdepth : depth ≤ maxNesting)
    (h : (entries fuel (depth + 1) []).run (composer es) = .ok (entryNodes, composer rest)) :
    (node (fuel + 1) depth).run (composer (.mappingStart none none m :: es)) =
      .ok (.mapping none .mapping m entryNodes, composer rest) := by
  rw [node, if_neg (Nat.not_lt.mpr hdepth)]
  show ((entries fuel (depth + 1) []).run (composer es) >>= fun r => _) = _
  rw [h]
  rfl

theorem run_items_end :
    (items (fuel + 1) depth seen).run (composer (.sequenceEnd :: rest)) =
      .ok (seen.reverse, composer rest) := by
  rw [items]
  rfl

theorem run_items_cons (he : e ≠ .sequenceEnd)
    (hnode : (node fuel depth).run (composer (e :: es)) = .ok (n, composer rest)) :
    (items (fuel + 1) depth seen).run (composer (e :: es)) =
      (items fuel depth (n :: seen)).run (composer rest) := by
  have hend : ¬ (e == .sequenceEnd) = true := by simpa using he
  have hpeek : peek.run (composer (e :: es)) = .ok (e, composer (e :: es)) := rfl
  rw [items, StateT.run_bind, hpeek]
  show StateT.run (if (e == .sequenceEnd) = true then _ else _) _ = _
  rw [if_neg hend, StateT.run_bind, hnode]
  rfl

theorem run_entries_end :
    (entries (fuel + 1) depth entrySeen).run (composer (.mappingEnd :: rest)) =
      .ok (entrySeen.reverse, composer rest) := by
  rw [entries]
  rfl

theorem run_entries_cons {es' : List Event} (he : e ≠ .mappingEnd)
    (hkey : (node fuel depth).run (composer (e :: es)) = .ok (k, composer es'))
    (hvalue : (node fuel depth).run (composer es') = .ok (v, composer rest)) :
    (entries (fuel + 1) depth entrySeen).run (composer (e :: es)) =
      (entries fuel depth ((k, v) :: entrySeen)).run (composer rest) := by
  have hend : ¬ (e == .mappingEnd) = true := by simpa using he
  have hpeek : peek.run (composer (e :: es)) = .ok (e, composer (e :: es)) := rfl
  rw [entries, StateT.run_bind, hpeek]
  show StateT.run (if (e == .mappingEnd) = true then _ else _) _ = _
  rw [if_neg hend, StateT.run_bind, hkey]
  show StateT.run (do let v ← node fuel depth; entries fuel depth ((k, v) :: entrySeen)) (composer es') = _
  rw [StateT.run_bind, hvalue]
  rfl

theorem depth_mem (p : Placed) (depth : Nat) : depth ∈ p.loaded.depths depth := by
  cases p <;> exact List.mem_cons_self

/-- The first event of content ends no collection. -/
theorem exists_first (f : Format) (p : Placed) : ∃ e es, p.events f = e :: es ∧ e ≠ .sequenceEnd := by
  cases p with
  | scalar s m => exact ⟨_, _, rfl, Event.noConfusion⟩
  | sequence m items => exact ⟨_, _, rfl, Event.noConfusion⟩
  | mapping m entries => exact ⟨_, _, rfl, Event.noConfusion⟩

-- The induction follows the content: a node, the items of a sequence, the entries of a mapping. Fuel
-- goes down by one with each node inside another and with each node beside another.
mutual

/-- The events of content are put together to its node. -/
theorem run_node (f : Format) : ∀ (p : Placed) (fuel depth : Nat) (rest : List Event),
    (p.events f).length ≤ fuel → (∀ d ∈ p.loaded.depths depth, d ≤ maxNesting) →
    (node fuel depth).run (composer (p.events f ++ rest)) = .ok (p.node f, composer rest)
  | .scalar s m, fuel, depth, rest, hfuel, hdepth => by
    obtain ⟨fuel, rfl⟩ := Nat.exists_eq_add_one_of_ne_zero (Nat.ne_zero_of_lt hfuel)
    exact run_node_text (hdepth depth List.mem_cons_self)
  | .sequence m ps, fuel, depth, rest, hfuel, hdepth => by
    obtain ⟨fuel, rfl⟩ := Nat.exists_eq_add_one_of_ne_zero (Nat.ne_zero_of_lt hfuel)
    have hlength : (Placed.eventsOfItems f ps).length < fuel := by
      rw [Placed.events] at hfuel
      simp only [List.length_cons, List.length_append, List.length_nil] at hfuel
      omega
    obtain ⟨hhere, hinside⟩ := List.forall_mem_cons.mp hdepth
    rw [Placed.events, List.cons_append, List.append_assoc]
    exact run_node_sequence hhere (run_items f ps _ _ [] rest hlength hinside)
  | .mapping m ps, fuel, depth, rest, hfuel, hdepth => by
    obtain ⟨fuel, rfl⟩ := Nat.exists_eq_add_one_of_ne_zero (Nat.ne_zero_of_lt hfuel)
    have hlength : (Placed.eventsOfEntries f ps).length < fuel := by
      rw [Placed.events] at hfuel
      simp only [List.length_cons, List.length_append, List.length_nil] at hfuel
      omega
    obtain ⟨hhere, hinside⟩ := List.forall_mem_cons.mp hdepth
    rw [Placed.events, List.cons_append, List.append_assoc]
    exact run_node_mapping hhere (run_entries f ps _ _ [] rest hlength hinside)

theorem run_items (f : Format) : ∀ (ps : List Placed) (fuel depth : Nat) (seen : List Node)
    (rest : List Event), (Placed.eventsOfItems f ps).length < fuel →
    (∀ d ∈ Loaded.depthsOfItems depth (Placed.loadedItems ps), d ≤ maxNesting) →
    (items fuel depth seen).run (composer (Placed.eventsOfItems f ps ++ ([.sequenceEnd] ++ rest))) =
      .ok (seen.reverse ++ Placed.nodesOfItems f ps, composer rest)
  | [], fuel, depth, seen, rest, hfuel, _ => by
    obtain ⟨fuel, rfl⟩ := Nat.exists_eq_add_one_of_ne_zero (Nat.ne_zero_of_lt hfuel)
    rw [Placed.nodesOfItems, List.append_nil]
    exact run_items_end
  | p :: ps, fuel, depth, seen, rest, hfuel, hdepth => by
    obtain ⟨fuel, rfl⟩ := Nat.exists_eq_add_one_of_ne_zero (Nat.ne_zero_of_lt hfuel)
    obtain ⟨hfirst, hmore⟩ := List.forall_mem_append.mp hdepth
    obtain ⟨e, es, hevents, he⟩ := exists_first f p
    rw [Placed.eventsOfItems, List.length_append] at hfuel
    have hpositive : 0 < (p.events f).length := by rw [hevents]; exact Nat.succ_pos _
    have hnode := run_node f p fuel depth (Placed.eventsOfItems f ps ++ ([.sequenceEnd] ++ rest))
      (by omega) hfirst
    have hitems := run_items f ps fuel depth (p.node f :: seen) rest (by omega) hmore
    rw [Placed.eventsOfItems, List.append_assoc]
    rw [hevents, List.cons_append] at hnode ⊢
    rw [run_items_cons he hnode, hitems, Placed.nodesOfItems]
    simp

theorem run_entries (f : Format) : ∀ (ps : List (String × Mark × Placed)) (fuel depth : Nat)
    (seen : List (Node × Node)) (rest : List Event), (Placed.eventsOfEntries f ps).length < fuel →
    (∀ d ∈ Loaded.depthsOfEntries depth (Placed.loadedEntries ps), d ≤ maxNesting) →
    (entries fuel depth seen).run (composer (Placed.eventsOfEntries f ps ++ ([.mappingEnd] ++ rest))) =
      .ok (seen.reverse ++ Placed.nodesOfEntries f ps, composer rest)
  | [], fuel, depth, seen, rest, hfuel, _ => by
    obtain ⟨fuel, rfl⟩ := Nat.exists_eq_add_one_of_ne_zero (Nat.ne_zero_of_lt hfuel)
    rw [Placed.nodesOfEntries, List.append_nil]
    exact run_entries_end
  | (key, m, p) :: ps, fuel, depth, seen, rest, hfuel, hdepth => by
    obtain ⟨fuel, rfl⟩ := Nat.exists_eq_add_one_of_ne_zero (Nat.ne_zero_of_lt hfuel)
    obtain ⟨hfirst, hmore⟩ := List.forall_mem_append.mp hdepth
    rw [Placed.eventsOfEntries, List.length_cons, List.length_append] at hfuel
    obtain ⟨fuel, rfl⟩ := Nat.exists_eq_add_one_of_ne_zero (by omega : fuel ≠ 0)
    have hnode := run_node f p (fuel + 1) depth
      (Placed.eventsOfEntries f ps ++ ([.mappingEnd] ++ rest)) (by omega) hfirst
    have hentries := run_entries f ps (fuel + 1) depth
      ((Placed.textNode (Quoting.ofText none key).style key m, p.node f) :: seen) rest (by omega) hmore
    have hkey := hfirst depth (depth_mem p depth)
    rw [Placed.eventsOfEntries, List.cons_append, List.append_assoc,
      run_entries_cons Event.noConfusion (run_node_text hkey) hnode, hentries, Placed.nodesOfEntries]
    simp

end

/-! ### Documents -/

theorem run_peek : peek.run (composer (e :: es)) = .ok (e, composer (e :: es)) := rfl

theorem run_drop : drop.run (composer (e :: es)) = .ok ((), composer es) := rfl

/-- The node of the only document is its content. -/
theorem run_document (hnode : (node (2 * es.length + 4) 0).run (composer es) =
    .ok (n, composer [.documentEnd, .streamEnd])) :
    document.run (composer (.streamStart :: .documentStart m :: es)) =
      .ok (some n, composer [.streamEnd]) := by
  have hok {α β : Type} (a : α) (g : α → Except Error β) : (Except.ok a >>= g) = g a := rfl
  have hevents (es : List Event) : (composer es).events = es := rfl
  unfold document
  simp only [StateT.run_bind, StateT.run_get, StateT.run_pure, run_peek, run_drop, hok, pure_bind,
    hevents, hnode]
  rfl

/-- The events of a document are put together to the node of its content. -/
theorem ofEvents?_eq (f : Format) (p : Placed) (m : Mark)
    (hdepth : ∀ d ∈ p.loaded.depths 0, d ≤ maxNesting) :
    Node.ofEvents? { events := .streamStart :: .documentStart m :: p.events f ++
      [.documentEnd, .streamEnd] } = .ok (some (p.node f)) := by
  have hnode := run_node f p (2 * (p.events f ++ [Event.documentEnd, .streamEnd]).length + 4) 0
    [.documentEnd, .streamEnd] (by rw [List.length_append]; omega) hdepth
  have hrun := run_document (m := m) hnode
  unfold Node.ofEvents?
  rw [StateT.run'_eq]
  show Prod.fst <$> document.run (composer _) = _
  rw [List.cons_append, List.cons_append, hrun]
  rfl

end Composing

end BusinessModel.Yaml
