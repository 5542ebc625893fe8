import BusinessModel.Proofs.Document.Distinct
import BusinessModel.Proofs.Yaml.Node

/-!
What is loaded for a document that has been written: the scalars, items and entries of its content. No
key is repeated, and none asks for another mapping to be merged.
-/

namespace BusinessModel.Yaml

variable {f : Format} {fuel depth : Nat} {deep : Bool} {pending : List (Nat × Bool)}
  {anchored : List (Nat × Node)} {m : Mark}

theorem firstFault_ok {α : Type} (values : List α) :
    firstFault (values.map fun v => (.ok v : Except Fault α)) = .ok values := by
  have hvalues : (values.map fun v => (.ok v : Except Fault α)).filterMap Except.toOption = values := by
    rw [List.filterMap_map]
    exact List.filterMap_some
  unfold firstFault
  extract_lets faults
  have hfaults : faults = [] := by
    refine List.filterMap_eq_nil_iff.mpr fun r hr => ?_
    obtain ⟨v, _, rfl⟩ := List.mem_map.mp hr
    rfl
  rw [hfaults]
  exact congrArg Except.ok hvalues

namespace Loading

/-- Loading a document that declares no version. -/
def lenient (anchored : List (Nat × Node)) : Loading := ⟨.lenient, .v12, anchored⟩

theorem load_text {tag : Tag} {text : String} {d : Datum}
    (h : Datum.ofText .v12 tag false m text = .ok d) :
    (lenient anchored).load (fuel + 1) deep pending (.scalar none tag text m) = .ok (.scalar d) := by
  have hlenient : ((lenient anchored).discipline == .strict) = false := rfl
  rw [load, hlenient]
  -- With no anchor and a lenient discipline, a tag of any kind is left to the reading of the text.
  cases tag <;>
    · dsimp only [lenient, Option.isSome_none]
      rw [h]

theorem load_key (key : String) :
    (lenient anchored).load (fuel + 1) deep pending
      (Placed.textNode (Quoting.ofText none key).style key m) =
    .ok (.scalar (.ofScalar (.str key))) :=
  load_text (datum_ofText none m key)

theorem load_sequence {items : List Node} {values : List Loaded}
    (h : items.map ((lenient anchored).load fuel deep pending) = values.map .ok) :
    (lenient anchored).load (fuel + 1) deep pending (.sequence none .sequence m items) =
      .ok (.sequence none (some m) ((items.map fun n : Node => some n.place).zip values)) := by
  have hcontent : (do
      let values ← firstFault (items.map ((lenient anchored).load fuel deep pending))
      return Loaded.sequence none (some m) ((items.map fun n : Node => some n.place).zip values)) =
      .ok (Loaded.sequence none (some m) ((items.map fun n : Node => some n.place).zip values)) := by
    rw [h, firstFault_ok]
    rfl
  cases deep with
  | true => exact hcontent
  | false => exact (congrArg nextRound hcontent).trans rfl

/-! ### Mappings -/

/-- The entry of a mapping that a text and content make. -/
def entryOf (e : String × Mark × Placed) : LoadedEntry :=
  ⟨Placed.key e.1, some (e.2.1, e.2.2.place), e.2.2.loaded⟩

/-- The pair of nodes that a text and content make. -/
def pairOf (f : Format) (e : String × Mark × Placed) : Node × Node :=
  (Placed.textNode (Quoting.ofText none e.1).style e.1 e.2.1, e.2.2.node f)

variable {ps : List (String × Mark × Placed)}

theorem nodesOfEntries_eq : Placed.nodesOfEntries f ps = ps.map (pairOf f) := by
  induction ps with
  | nil => rfl
  | cons e ps ih =>
    obtain ⟨key, m, p⟩ := e
    rw [Placed.nodesOfEntries, ih]
    rfl

theorem loadedEntries_eq :
    Placed.loadedEntries ps = (ps.map entryOf).map fun e => (e.key, e.places, e.value) := by
  induction ps with
  | nil => rfl
  | cons e ps ih =>
    obtain ⟨key, m, p⟩ := e
    rw [Placed.loadedEntries, ih]
    rfl

theorem same_key (a b : String) : (Placed.key a).same (Placed.key b) = (a == b) := by
  simp [Key.same, Placed.key, Value.same, Scalar.same]

/-- A text as a key is no mark of a merge. -/
theorem splitMerges_eq : splitMerges (ps.map (pairOf f)) = ([], ps.map (pairOf f)) := by
  have htext : ∀ e ∈ ps.map (pairOf f), ∃ text place, e.1 = .scalar none .str text place := by
    intro e he
    obtain ⟨p, _, rfl⟩ := List.mem_map.mp he
    rw [pairOf, Placed.textNode, tag_ofText]
    exact ⟨_, _, rfl⟩
  unfold splitMerges
  rw [List.partition_eq_filter_filter]
  refine Prod.ext (List.filter_eq_nil_iff.mpr fun e he => ?_) (List.filter_eq_self.mpr fun e he => ?_)
  all_goals obtain ⟨text, place, heq⟩ := htext e he
  · rw [heq]
    exact Bool.false_ne_true
  · rw [Function.comp_apply, heq]
    rfl

/-- Entries are added one behind another as long as no key is repeated. -/
theorem foldlM_pairs {late : List (Except Fault Unit)}
    {add : List LoadedEntry × List (Except Fault Unit) → Node × Node →
      Except Fault (List LoadedEntry × List (Except Fault Unit))}
    (hadd : ∀ e ∈ ps, ∀ seen : List LoadedEntry,
      (∀ z ∈ seen, z.key.same (Placed.key e.1) = false) →
      add (seen, late) (pairOf f e) = .ok (entryOf e :: seen, late))
    (hnodup : (ps.map (·.1)).Nodup) (seen : List LoadedEntry)
    (hseen : ∀ z ∈ seen, ∀ e ∈ ps, z.key.same (Placed.key e.1) = false) :
    (ps.map (pairOf f)).foldlM add (seen, late) = .ok ((ps.map entryOf).reverse ++ seen, late) := by
  induction ps generalizing seen with
  | nil => rfl
  | cons e ps ih =>
    obtain ⟨hnew, hnodup⟩ := List.nodup_cons.mp hnodup
    rw [List.map_cons, List.foldlM_cons, hadd e List.mem_cons_self seen
      fun z hz => hseen z hz e List.mem_cons_self]
    refine (ih (fun e' he' => hadd e' (List.mem_cons_of_mem _ he')) hnodup (entryOf e :: seen) ?_).trans
      (by simp)
    intro z hz e' he'
    rcases List.mem_cons.mp hz with rfl | hz
    · show (Placed.key e.1).same (Placed.key e'.1) = false
      rw [same_key, beq_eq_false_iff_ne]
      exact fun heq => hnew (List.mem_map.mpr ⟨e', he', heq.symm⟩)
    · exact hseen z hz e' (List.mem_cons_of_mem _ he')

theorem addEntry_eq {place keyPlace : Mark} {seen : List LoadedEntry} {e : LoadedEntry}
    (h : ∀ z ∈ seen, z.key.same e.key = false) : addEntry place keyPlace seen e = .ok (e :: seen) := by
  have hnone : seen.find? (·.key.same e.key) = none :=
    List.find?_eq_none.mpr fun z hz => by rw [h z hz]; exact Bool.false_ne_true
  rw [addEntry, hnone]

theorem place_node (p : Placed) : (p.node f).place = p.place := by
  cases p <;> rfl

theorem load_mapping (hnodup : (ps.map (·.1)).Nodup) (hfuel : 0 < fuel)
    (h : ∀ e ∈ ps, ∀ deep, (lenient anchored).load fuel deep pending (e.2.2.node f) = .ok e.2.2.loaded) :
    (lenient anchored).load (fuel + 1) deep pending
      (.mapping none .mapping m (Placed.nodesOfEntries f ps)) =
        .ok (.mapping none (some m) (Placed.loadedEntries ps)) := by
  have hkey (key : String) (m : Mark) : (lenient anchored).load fuel true pending
      (Placed.textNode (Quoting.ofText none key).style key m) = .ok (.scalar (.ofScalar (.str key))) := by
    obtain ⟨fuel, rfl⟩ := Nat.exists_eq_add_one_of_ne_zero (Nat.ne_of_gt hfuel)
    exact load_key key
  rw [nodesOfEntries_eq, loadedEntries_eq, load]
  any_goals rintro ⟨⟩
  extract_lets inside
  dsimp -zeta only
  extract_lets finish
  have hfinish : finish [] =
      .ok (.mapping none (some m) ((ps.map entryOf).map fun e => (e.key, e.places, e.value))) := by
    dsimp only [finish]
    rw [splitMerges_eq, List.mapM_nil, pure_bind, foldlM_pairs _ hnodup [] (by rintro z ⟨⟩)]
    · show Except.ok (Loaded.mapping none (some m) (((ps.map entryOf).reverse ++ []).reverse.map
        fun e : LoadedEntry => (e.key, e.places, e.value))) = _
      rw [List.append_nil, List.reverse_reverse]
    · intro e he seen hseen
      dsimp only [pairOf, Option.map_none, Option.toList_none, List.nil_append]
      rw [hkey, h e he]
      show (addEntry m e.2.1 seen ⟨Placed.key e.1, some (e.2.1, (e.2.2.node f).place), e.2.2.loaded⟩ >>=
        fun seen => _) = _
      rw [place_node]
      exact congrArg (· >>= _) (addEntry_eq hseen)
  rw [splitMerges_eq]
  cases deep with
  | true => exact hfinish
  | false => exact (congrArg nextRound hfinish).trans rfl

end Loading

/-! ### Content -/

namespace Placed

/-- The scalars of the content are written without loss, and no key is repeated. -/
inductive IsSound : Placed → Prop where
  | scalar {s : Scalar} {m : Mark} (hs : s.IsExact) : IsSound (.scalar s m)
  | sequence {m : Mark} {items : List Placed} (hitems : ∀ p ∈ items, p.IsSound) :
      IsSound (.sequence m items)
  | mapping {m : Mark} {entries : List (String × Mark × Placed)} (hnodup : (entries.map (·.1)).Nodup)
      (hentries : ∀ e ∈ entries, e.2.2.IsSound) : IsSound (.mapping m entries)

theorem contentOfItems_eq (ps : List Placed) : contentOfItems ps = ps.map content := by
  induction ps with
  | nil => rfl
  | cons p ps ih => rw [contentOfItems, ih, List.map_cons]

theorem contentOfEntries_eq (ps : List (String × Mark × Placed)) :
    contentOfEntries ps = ps.map fun e => (e.1, e.2.2.content) := by
  induction ps with
  | nil => rfl
  | cons e ps ih => rw [contentOfEntries, ih, List.map_cons]

theorem nodup_keys {ps : List (String × Mark × Placed)}
    (h : ((contentOfEntries ps).map (·.1)).Nodup) : (ps.map (·.1)).Nodup := by
  rwa [contentOfEntries_eq, List.map_map] at h

-- The induction follows the content: a node, the items of a sequence, the entries of a mapping.
mutual

theorem isSound : ∀ p : Placed, p.content.IsExact → p.content.IsDistinct → p.IsSound
  | .scalar _ _, .scalar hs, _ => .scalar hs
  | .sequence _ ps, .sequence hexact, .sequence hdistinct =>
    .sequence (isSound_items ps hexact hdistinct)
  | .mapping _ ps, .mapping hexact, .mapping hkeys hdistinct =>
    .mapping (nodup_keys hkeys) (isSound_entries ps hexact hdistinct)

private theorem isSound_items : ∀ ps : List Placed, (∀ c ∈ contentOfItems ps, c.IsExact) →
    (∀ c ∈ contentOfItems ps, c.IsDistinct) → ∀ p ∈ ps, p.IsSound
  | [], _, _ => by simp
  | p :: ps, hexact, hdistinct => by
    obtain ⟨hfirst, hmore⟩ := List.forall_mem_cons.mp hexact
    obtain ⟨hfirst', hmore'⟩ := List.forall_mem_cons.mp hdistinct
    exact List.forall_mem_cons.mpr ⟨isSound p hfirst hfirst', isSound_items ps hmore hmore'⟩

private theorem isSound_entries : ∀ ps : List (String × Mark × Placed),
    (∀ e ∈ contentOfEntries ps, e.2.IsExact) → (∀ e ∈ contentOfEntries ps, e.2.IsDistinct) →
    ∀ e ∈ ps, e.2.2.IsSound
  | [], _, _ => by simp
  | (_, _, p) :: ps, hexact, hdistinct => by
    obtain ⟨hfirst, hmore⟩ := List.forall_mem_cons.mp hexact
    obtain ⟨hfirst', hmore'⟩ := List.forall_mem_cons.mp hdistinct
    exact List.forall_mem_cons.mpr ⟨isSound p hfirst hfirst', isSound_entries ps hmore hmore'⟩

end

theorem nodesOfItems_eq (ps : List Placed) : nodesOfItems f ps = ps.map (node f) := by
  induction ps with
  | nil => rfl
  | cons p ps ih => rw [nodesOfItems, ih, List.map_cons]

theorem loadedItems_eq (ps : List Placed) :
    loadedItems ps = (ps.map fun p => some p.place).zip (ps.map loaded) := by
  induction ps with
  | nil => rfl
  | cons p ps ih =>
    rw [loadedItems, ih]
    rfl

theorem forall_depthsOfItems {P : Nat → Prop} {ps : List Placed}
    (h : ∀ d ∈ Loaded.depthsOfItems depth (loadedItems ps), P d) :
    ∀ p ∈ ps, ∀ d ∈ p.loaded.depths depth, P d := by
  induction ps with
  | nil => rintro p ⟨⟩
  | cons p ps ih =>
    obtain ⟨hfirst, hmore⟩ := List.forall_mem_append.mp h
    exact List.forall_mem_cons.mpr ⟨hfirst, ih hmore⟩

theorem forall_depthsOfEntries {P : Nat → Prop} {ps : List (String × Mark × Placed)}
    (h : ∀ d ∈ Loaded.depthsOfEntries depth (loadedEntries ps), P d) :
    ∀ e ∈ ps, ∀ d ∈ e.2.2.loaded.depths depth, P d := by
  induction ps with
  | nil => rintro p ⟨⟩
  | cons e ps ih =>
    obtain ⟨hfirst, hmore⟩ := List.forall_mem_append.mp h
    exact List.forall_mem_cons.mpr ⟨hfirst, ih hmore⟩

/-- The node of content is loaded as the content. -/
theorem load_node (f : Format) {p : Placed} (hp : p.IsSound) (fuel depth : Nat) (deep : Bool)
    (hfuel : ∀ d ∈ p.loaded.depths depth, d + 1 < depth + fuel) :
    (Loading.lenient anchored).load fuel deep pending (p.node f) = .ok p.loaded := by
  induction hp generalizing fuel depth deep with
  | @scalar s m hs =>
    obtain ⟨fuel, rfl⟩ := Nat.exists_eq_add_one_of_ne_zero (by
      have := hfuel depth List.mem_cons_self
      omega : fuel ≠ 0)
    exact Loading.load_text (datum_scalarText f hs m)
  | @sequence m items _ ih =>
    obtain ⟨hhere, hinside⟩ := List.forall_mem_cons.mp hfuel
    obtain ⟨fuel, rfl⟩ := Nat.exists_eq_add_one_of_ne_zero (by omega : fuel ≠ 0)
    have hitems := forall_depthsOfItems hinside
    have hvalues : (items.map (node f)).map ((Loading.lenient anchored).load fuel deep pending) =
        (items.map loaded).map .ok := by
      rw [List.map_map, List.map_map]
      refine List.map_congr_left fun p hp => ih p hp fuel (depth + 1) deep fun d hd => ?_
      have := hitems p hp d hd
      omega
    rw [node, nodesOfItems_eq, Loading.load_sequence hvalues, loaded, loadedItems_eq, List.map_map]
    congr 3
    exact List.map_congr_left fun p _ => congrArg some (Loading.place_node p)
  | @mapping m entries hnodup _ ih =>
    obtain ⟨hhere, hinside⟩ := List.forall_mem_cons.mp hfuel
    obtain ⟨fuel, rfl⟩ := Nat.exists_eq_add_one_of_ne_zero (by omega : fuel ≠ 0)
    have hentries := forall_depthsOfEntries hinside
    refine Loading.load_mapping hnodup (by omega) fun e he deep =>
      ih e he fuel (depth + 1) deep fun d hd => ?_
    have := hentries e he d hd
    omega

/-! ### Trees -/

mutual

/-- What is loaded holds no aliases. -/
theorem isTree_loaded : ∀ p : Placed, p.loaded.isTree = true
  | .scalar _ _ => rfl
  | .sequence _ ps => isTree_loadedItems ps
  | .mapping _ ps => isTree_loadedEntries ps

private theorem isTree_loadedItems : ∀ ps : List Placed, Loaded.areItemsTrees (loadedItems ps) = true
  | [] => rfl
  | p :: ps => Bool.and_eq_true_iff.mpr ⟨isTree_loaded p, isTree_loadedItems ps⟩

private theorem isTree_loadedEntries : ∀ ps : List (String × Mark × Placed),
    Loaded.areEntriesTrees (loadedEntries ps) = true
  | [] => rfl
  | (_, _, p) :: ps => Bool.and_eq_true_iff.mpr ⟨isTree_loaded p, isTree_loadedEntries ps⟩

end

mutual

/-- The tree of what is loaded is the content. -/
theorem content_loaded : ∀ p : Placed, p.loaded.content = p.content
  | .scalar _ _ => rfl
  | .sequence _ ps => congrArg Content.sequence (content_loadedItems ps)
  | .mapping _ ps => congrArg Content.mapping (content_loadedEntries ps)

private theorem content_loadedItems : ∀ ps : List Placed,
    Loaded.contentOfItems (loadedItems ps) = contentOfItems ps
  | [] => rfl
  | p :: ps => by
    rw [loadedItems, Loaded.contentOfItems, contentOfItems, content_loaded p, content_loadedItems ps]

private theorem content_loadedEntries : ∀ ps : List (String × Mark × Placed),
    Loaded.contentOfEntries (loadedEntries ps) = contentOfEntries ps
  | [] => rfl
  | (key, m, p) :: ps => by
    rw [loadedEntries, Loaded.contentOfEntries, contentOfEntries, content_loaded p,
      content_loadedEntries ps]
    rfl

end

end Placed

/-- The node of a document is loaded as its content. -/
theorem Loaded.ofNode_eq (f : Format) {p : Placed} (hp : p.IsSound)
    (hdepth : ∀ d ∈ p.loaded.depths 0, d ≤ maxNesting) :
    Loaded.ofNode .lenient .v12 (p.node f) = .ok p.loaded := by
  have hload : (Loading.lenient (p.node f).anchored).load (2 * maxNesting + 8) false [] (p.node f) =
      .ok p.loaded := by
    refine Placed.load_node f hp _ 0 false fun d hd => ?_
    have := hdepth d hd
    omega
  unfold Loaded.ofNode
  extract_lets l
  rw [show l.load (2 * maxNesting + 8) false [] (p.node f) = .ok p.loaded from hload]

end BusinessModel.Yaml
