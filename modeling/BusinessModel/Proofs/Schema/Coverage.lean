import BusinessModel.Proofs.Schema.Engine
import BusinessModel.Proofs.Schema.Walk
import Mathlib.Tactic.Ring

/-!
The walk through schemas leaves nothing out: it ends with every schema visited that it has come to,
under each property name. Each visit uses up the demand of its schema, and the demands of all parts
of the registered schemas, once for each property name, stay below the bound on the steps.
-/

namespace BusinessModel

/-- A key that occurs is found. -/
theorem Value.lookup_ne_none {key : String} {v : Value} {entries : List (Value × Value)}
    (h : (.str key, v) ∈ entries) : Value.lookup key entries ≠ none := by
  fun_induction Value.lookup key entries with
  | case1 => cases h
  | case2 => exact Option.some_ne_none _
  | case3 k w rest hne ih =>
    refine ih ((List.mem_cons.mp h).resolve_left fun heq => ?_)
    cases heq
    simp at hne
  | case4 e rest hother ih =>
    refine ih ((List.mem_cons.mp h).resolve_left fun heq => ?_)
    exact hother key v heq.symm

namespace Schema

/-- What a schema has at a key is one of its entries. -/
theorem Located.mem_of_get? {s inner : Located} {key : String} (h : s.get? key = some inner) :
    (.str key, inner) ∈ s.entries := by
  obtain ⟨⟨k, found⟩, hfind, rfl⟩ := Option.map_eq_some_iff.mp h
  have hkey : k = .str key := Value.eq_of_str? (by simpa using List.find?_some hfind)
  rw [← hkey]
  exact List.mem_of_find?_eq_some hfind

/-- The schema that a keyword leads to is the one in its value. -/
theorem Located.value_of_get? {s inner : Located} {key : String} (h : s.get? key = some inner) :
    s.value.get? key = some inner.value := by
  cases hv : s.value.get? key with
  | some v =>
    obtain ⟨inner', hinner', rfl⟩ := Located.exists_get? hv
    rw [h] at hinner'
    rw [Option.some.inj hinner']
  | none =>
    exfalso
    obtain ⟨i, v, hentry, rfl⟩ := Located.mem_entries_iff.mp (Located.mem_of_get? h)
    have hmem := List.mem_of_getElem? hentry
    cases hvalue : s.value with
    | map entries =>
      rw [hvalue] at hv hmem
      exact Value.lookup_ne_none hmem hv
    | scalar x => simp [hvalue, Value.entries] at hmem
    | list items => simp [hvalue, Value.entries] at hmem

namespace Walk

/-! ### The parts of values -/

mutual

/-- The value at a place and all values in it, each with its place. -/
def parts (place : Place) : Value → List Located
  | .scalar s => [⟨.scalar s, place⟩]
  | .list items => ⟨.list items, place⟩ :: partsOfItems place 0 items
  | .map entries => ⟨.map entries, place⟩ :: partsOfEntries place 0 entries

/-- The parts of items, from an index on. -/
def partsOfItems (place : Place) (index : Nat) : List Value → List Located
  | [] => []
  | v :: rest =>
    parts { place with steps := index :: place.steps } v ++ partsOfItems place (index + 1) rest

/-- The parts of the values of entries, from an index on. -/
def partsOfEntries (place : Place) (index : Nat) : List (Value × Value) → List Located
  | [] => []
  | (_, v) :: rest =>
    parts { place with steps := index :: place.steps } v ++ partsOfEntries place (index + 1) rest

end

theorem self_mem_parts (place : Place) (v : Value) : ⟨v, place⟩ ∈ parts place v := by
  cases v <;> simp [parts]

theorem mem_partsOfItems {place : Place} {n i : Nat} {items : List Value} {v : Value}
    (hv : items[i]? = some v) {s : Located}
    (hs : s ∈ parts { place with steps := (n + i) :: place.steps } v) :
    s ∈ partsOfItems place n items := by
  induction items generalizing n i with
  | nil => simp at hv
  | cons w rest ih =>
    rw [partsOfItems, List.mem_append]
    cases i with
    | zero =>
      cases hv
      exact .inl hs
    | succ i =>
      refine .inr (ih (i := i) hv ?_)
      rwa [Nat.add_assoc, Nat.add_comm 1 i]

theorem mem_partsOfEntries {place : Place} {n i : Nat} {entries : List (Value × Value)}
    {e : Value × Value} (he : entries[i]? = some e) {s : Located}
    (hs : s ∈ parts { place with steps := (n + i) :: place.steps } e.2) :
    s ∈ partsOfEntries place n entries := by
  induction entries generalizing n i with
  | nil => simp at he
  | cons e' rest ih =>
    obtain ⟨k, w⟩ := e'
    rw [partsOfEntries, List.mem_append]
    cases i with
    | zero =>
      cases he
      exact .inl hs
    | succ i =>
      refine .inr (ih (i := i) he ?_)
      rwa [Nat.add_assoc, Nat.add_comm 1 i]

-- The induction follows the parts: a value, the items of a list, the entries of a mapping.
mutual

/-- The parts of a part are parts of the whole. -/
theorem mem_parts_trans {place : Place} {s t : Located} (ht : t ∈ parts s.place s.value) :
    ∀ v, s ∈ parts place v → t ∈ parts place v
  | .scalar x, hs => by
    rw [parts, List.mem_singleton] at hs
    rwa [hs] at ht
  | .list items, hs => by
    rw [parts, List.mem_cons] at hs
    rcases hs with rfl | hs
    · exact ht
    · rw [parts]
      exact List.mem_cons_of_mem _ (mem_partsOfItems_trans ht items hs)
  | .map entries, hs => by
    rw [parts, List.mem_cons] at hs
    rcases hs with rfl | hs
    · exact ht
    · rw [parts]
      exact List.mem_cons_of_mem _ (mem_partsOfEntries_trans ht entries hs)

private theorem mem_partsOfItems_trans {place : Place} {n : Nat} {s t : Located}
    (ht : t ∈ parts s.place s.value) :
    ∀ items, s ∈ partsOfItems place n items → t ∈ partsOfItems place n items
  | [], hs => by
    rw [partsOfItems] at hs
    cases hs
  | v :: rest, hs => by
    rw [partsOfItems, List.mem_append] at hs ⊢
    exact hs.imp (mem_parts_trans ht v) (mem_partsOfItems_trans ht rest)

private theorem mem_partsOfEntries_trans {place : Place} {n : Nat} {s t : Located}
    (ht : t ∈ parts s.place s.value) :
    ∀ entries, s ∈ partsOfEntries place n entries → t ∈ partsOfEntries place n entries
  | [], hs => by
    rw [partsOfEntries] at hs
    cases hs
  | (_, v) :: rest, hs => by
    rw [partsOfEntries, List.mem_append] at hs ⊢
    exact hs.imp (mem_parts_trans ht v) (mem_partsOfEntries_trans ht rest)

end

/-- What stands one step inside a value that is no text is one of the parts. -/
theorem part_mem_parts {place : Place} {v w : Value} {i : Nat} (hscalar : ∀ x, v ≠ .scalar x)
    (hw : v.part? i = some w) :
    ⟨w, { place with steps := i :: place.steps }⟩ ∈ parts place v := by
  cases v with
  | scalar x => exact absurd rfl (hscalar x)
  | list items =>
    rw [parts]
    refine List.mem_cons_of_mem _ (mem_partsOfItems (n := 0) hw ?_)
    rw [Nat.zero_add]
    exact self_mem_parts _ w
  | map entries =>
    obtain ⟨e, he, rfl⟩ := Option.map_eq_some_iff.mp hw
    rw [parts]
    refine List.mem_cons_of_mem _ (mem_partsOfEntries (n := 0) he ?_)
    rw [Nat.zero_add]
    exact self_mem_parts _ e.2

/-- The parts of several values, which have their numbers as places. -/
def allParts (schemas : List Value) : List Located :=
  schemas.zipIdx.flatMap fun e => parts ⟨e.2, []⟩ e.1

/-- What is in the schemas, and is no scalar, is one of their parts. -/
theorem mem_allParts {schemas : List Value} {s : Located} (hs : s.IsIn schemas)
    (hscalar : ∀ x, s.value ≠ .scalar x) : s ∈ allParts schemas := by
  obtain ⟨v, ⟨root, steps⟩⟩ := s
  induction steps generalizing v with
  | nil =>
    refine List.mem_flatMap.mpr ⟨(v, root), List.mem_zipIdx_iff_getElem?.mpr ?_, self_mem_parts _ v⟩
    exact hs
  | cons i steps ih =>
    obtain ⟨u, hu, hv⟩ := Option.bind_eq_some_iff.mp
      (show (Place.value? schemas ⟨root, steps⟩).bind (·.part? i) = some v from hs)
    have hnot (x : Scalar) : u ≠ .scalar x := by
      rintro rfl
      cases x with
      | str text =>
        obtain ⟨c, _, rfl⟩ := Option.map_eq_some_iff.mp hv
        exact hscalar _ rfl
      | _ => cases hv
    obtain ⟨e, he, hmem⟩ := List.mem_flatMap.mp (ih u hu hnot)
    exact List.mem_flatMap.mpr ⟨e, he, mem_parts_trans (part_mem_parts hnot hv) e.1 hmem⟩

/-! ### The demand of visits -/

/-- The number of values one step inside a value. -/
def breadth : Value → Nat
  | .scalar _ => 0
  | .list items => items.length
  | .map entries => entries.length

/-- The number of values two steps inside a value. -/
def innerBreadth : Value → Nat
  | .scalar _ => 0
  | .list items => (items.map breadth).sum
  | .map entries => (entries.map fun e => breadth e.2).sum

/-- As many tasks as a visit leads to, and three for its reference, what follows from the reference,
and its note. -/
def demand (v : Value) : Nat := 3 + breadth v + innerBreadth v

/-- The demands of parts taken together. -/
def demands (ss : List Located) : Nat := (ss.map fun s => demand s.value).sum

theorem demands_append (ss ts : List Located) : demands (ss ++ ts) = demands ss + demands ts := by
  simp [demands]

mutual

/-- The parts of a value demand fewer than five tasks each. -/
theorem demands_parts_le (place : Place) : ∀ v, demands (parts place v) + breadth v + 2 ≤ 5 * size v
  | .scalar x => by simp [parts, demands, demand, breadth, innerBreadth, size]
  | .list items => by
    have hitems := demands_partsOfItems_le place 0 items
    simp only [parts, demands, demand, breadth, innerBreadth, size, List.map_cons,
      List.sum_cons] at hitems ⊢
    omega
  | .map entries => by
    have hentries := demands_partsOfEntries_le place 0 entries
    simp only [parts, demands, demand, breadth, innerBreadth, size, List.map_cons,
      List.sum_cons] at hentries ⊢
    omega

private theorem demands_partsOfItems_le (place : Place) (n : Nat) : ∀ items : List Value,
    demands (partsOfItems place n items) + (items.map breadth).sum + 2 * items.length ≤
      5 * sizeOfItems items
  | [] => by simp [partsOfItems, demands, sizeOfItems]
  | v :: rest => by
    have hv := demands_parts_le { place with steps := n :: place.steps } v
    have hrest := demands_partsOfItems_le place (n + 1) rest
    rw [partsOfItems, demands_append]
    simp only [sizeOfItems, List.map_cons, List.sum_cons, List.length_cons]
    omega

private theorem demands_partsOfEntries_le (place : Place) (n : Nat) :
    ∀ entries : List (Value × Value),
      demands (partsOfEntries place n entries) + (entries.map fun e => breadth e.2).sum +
        2 * entries.length ≤ 5 * sizeOfEntries entries
  | [] => by simp [partsOfEntries, demands, sizeOfEntries]
  | (_, v) :: rest => by
    have hv := demands_parts_le { place with steps := n :: place.steps } v
    have hrest := demands_partsOfEntries_le place (n + 1) rest
    rw [partsOfEntries, demands_append]
    simp only [sizeOfEntries, List.map_cons, List.sum_cons, List.length_cons]
    omega

end

theorem demands_allParts_le (schemas : List Value) :
    demands (allParts schemas) ≤ 5 * (schemas.map size).sum := by
  have hfrom (n : Nat) : demands ((schemas.zipIdx n).flatMap fun e => parts ⟨e.2, []⟩ e.1) ≤
      5 * (schemas.map size).sum := by
    induction schemas generalizing n with
    | nil => simp [demands]
    | cons v rest ih =>
      have hv := demands_parts_le ⟨n, []⟩ v
      have hrest := ih (n + 1)
      rw [List.zipIdx_cons, List.flatMap_cons, demands_append, List.map_cons, List.sum_cons]
      dsimp only
      omega
  exact hfrom 0

/-- What different keywords have is counted once for each entry. -/
theorem sum_lookup_le (f : Value → Nat) : ∀ (entries : List (Value × Value)) (keys : List String),
    keys.Nodup →
      (keys.map fun key => ((Value.lookup key entries).map f).getD 0).sum ≤
        (entries.map fun e => f e.2).sum
  | [], keys, _ => by simp [Value.lookup]
  | e :: rest, keys, hkeys => by
    have hrest := sum_lookup_le f rest
    by_cases hkey : ∃ name ∈ keys, e.1 = .str name
    · obtain ⟨name, hname, he⟩ := hkey
      have hperm := List.perm_cons_erase hname
      have hothers : ((keys.erase name).map fun key =>
          ((Value.lookup key (e :: rest)).map f).getD 0) =
            (keys.erase name).map fun key => ((Value.lookup key rest).map f).getD 0 := by
        refine List.map_congr_left fun key hmem => ?_
        obtain ⟨k, v⟩ := e
        have hne : name ≠ key := fun heq => (hkeys.mem_erase_iff.mp hmem).1 heq.symm
        cases he
        rw [Value.lookup, if_neg (by simpa using hne)]
      have hfirst : Value.lookup name (e :: rest) = some e.2 := by
        obtain ⟨k, v⟩ := e
        cases he
        simp [Value.lookup]
      rw [(hperm.map _).sum_nat, List.map_cons, List.sum_cons, hothers, hfirst, List.map_cons,
        List.sum_cons, Option.map_some, Option.getD_some]
      exact Nat.add_le_add_left (hrest _ (hkeys.erase name)) _
    · have hothers : (keys.map fun key => ((Value.lookup key (e :: rest)).map f).getD 0) =
          keys.map fun key => ((Value.lookup key rest).map f).getD 0 := by
        refine List.map_congr_left fun key hmem => ?_
        obtain ⟨k, v⟩ := e
        rw [Value.lookup.eq_def]
        split
        · next heq => cases heq
        · next k' w rest' heq =>
          cases heq
          have hne : k' ≠ key := by
            rintro rfl
            exact hkey ⟨k', hmem, rfl⟩
          rw [if_neg (by simpa using hne)]
        · next heq =>
          cases heq
          rfl
      rw [hothers, List.map_cons, List.sum_cons]
      exact Nat.le_trans (hrest keys hkeys) (Nat.le_add_left _ _)

/-- The number of schemas that a keyword can hold. -/
def share (schema : Value) (keyword : String) : Nat :=
  ((schema.get? keyword).map fun v => 1 + breadth v).getD 0

theorem length_named_le {s : Located} {keyword : String} {found : List (Value × Located)}
    (h : named s keyword = .ok found) : found.length ≤ share s.value keyword := by
  unfold named at h
  split at h
  · cases h
    exact Nat.zero_le _
  · next inner hinner =>
    rw [share, Located.value_of_get? hinner]
    split at h
    · next entries hentries =>
      cases h
      simp [Located.entries, hentries, Value.entries, breadth]
    · split at h
      · cases h
      · cases h
        exact Nat.zero_le _

theorem length_listed_le {s : Located} {keyword : String} {found : List Located}
    (h : listed s keyword = .ok found) : found.length ≤ share s.value keyword := by
  unfold listed at h
  split at h
  · cases h
    exact Nat.zero_le _
  · next inner hinner =>
    rw [share, Located.value_of_get? hinner]
    split at h
    · next items hitems =>
      cases h
      simp [Located.items, hitems, Value.items, breadth]
    · cases h
      exact Nat.zero_le _
    · cases h
      exact Nat.zero_le _
    · split at h
      · cases h
      · cases h
        exact Nat.zero_le _

theorem length_held_le (s : Located) (keyword : String) :
    (held s keyword).length ≤ share s.value keyword := by
  unfold held
  split
  · next inner hinner =>
    rw [share, Located.value_of_get? hinner]
    split
    · simp
    · exact Nat.zero_le _
  · exact Nat.zero_le _

/-- The keywords whose schemas the walk visits. -/
def visitedKeywords : List String :=
  ["properties", "patternProperties", "items", "additionalProperties"] ++ wayKeywords

theorem sum_share_le (schema : Value) :
    (visitedKeywords.map (share schema)).sum ≤ breadth schema + innerBreadth schema := by
  cases schema with
  | scalar x => simp [visitedKeywords, wayKeywords, share, Value.get?]
  | list items => simp [visitedKeywords, wayKeywords, share, Value.get?]
  | map entries =>
    have hsum : (entries.map fun e => 1 + breadth e.2).sum =
        entries.length + (entries.map fun e => breadth e.2).sum := by
      induction entries with
      | nil => rfl
      | cons e rest ih =>
        rw [List.map_cons, List.sum_cons, ih, List.length_cons, List.map_cons, List.sum_cons]
        omega
    rw [breadth, innerBreadth, ← hsum]
    exact sum_lookup_le (fun v => 1 + breadth v) entries visitedKeywords (by decide)

/-- A visit leads to no more tasks than its schema demands. -/
theorem length_innerTasks_le {v : Visit} {tasks : List Task} (h : innerTasks v = .ok tasks) :
    tasks.length + 3 ≤ demand v.schema.value := by
  obtain ⟨properties, hproperties, h⟩ := bind_eq_ok_iff.mp h
  obtain ⟨patterns, hpatterns, h⟩ := bind_eq_ok_iff.mp h
  obtain ⟨ways, hways, h⟩ := bind_eq_ok_iff.mp h
  cases h
  obtain _ | ⟨hone, hrest⟩ := mapM_eq_ok_iff.mp hways
  obtain _ | ⟨hany, hrest⟩ := hrest
  obtain _ | ⟨hall, hrest⟩ := hrest
  cases hrest
  have hsum := sum_share_le v.schema.value
  have hproperties := length_named_le hproperties
  have hpatterns := length_named_le hpatterns
  have hitems := length_held_le v.schema "items"
  have hadditional := length_held_le v.schema "additionalProperties"
  have hone := length_listed_le hone
  have hany := length_listed_le hany
  have hall := length_listed_le hall
  simp only [visitedKeywords, wayKeywords, List.cons_append, List.nil_append, List.map_cons,
    List.map_nil, List.sum_cons, List.sum_nil] at hsum
  simp only [demand, List.length_append, List.length_map, List.flatten_cons, List.flatten_nil,
    List.length_nil]
  omega

/-! ### What the walk has come to -/

variable {registry : Registry} {addresses : List String}

/-- The schema and the name of a visit. -/
def key (v : Visit) : Place × Option String := (v.schema.place, v.property)

/-- The task is done, so far as the notes can tell. -/
def IsDone (registry : Registry) (notes : Notes) : Task → Prop
  | .visit v => v.schema.value.isMap = true → key v ∈ notes.seen
  | .follow v reference => ∃ s scope, follow registry v.scope reference = .ok (s, scope) ∧
      (s.value.isMap = true → (s.place, v.property) ∈ notes.seen)
  | .note s property =>
    ∀ letters, lettersOf s.value = some letters → ⟨property, letters⟩ ∈ notes.fields

/-- Where a walk can go on to, it does. -/
theorem mem_innerTasks {v w : Visit} {tasks : List Task} (h : innerTasks v = .ok tasks)
    (hw : Enters v w) : .visit w ∈ tasks := by
  have hentries {inner : Located} {k : Value} {s : Located} (hs : (k, s) ∈ inner.entries) :
      ∃ entries, inner.value = .map entries := by
    obtain ⟨i, x, hx, _⟩ := Located.mem_entries_iff.mp hs
    cases hvalue : inner.value with
    | map entries => exact ⟨entries, rfl⟩
    | scalar a => simp [hvalue, Value.entries] at hx
    | list items => simp [hvalue, Value.entries] at hx
  obtain ⟨properties, hproperties, h⟩ := bind_eq_ok_iff.mp h
  obtain ⟨patterns, hpatterns, h⟩ := bind_eq_ok_iff.mp h
  obtain ⟨ways, hways, h⟩ := bind_eq_ok_iff.mp h
  cases h
  simp only [List.mem_append, List.mem_map]
  cases hw with
  | property hinner hs =>
    obtain ⟨entries, hvalue⟩ := hentries hs
    simp only [named, hinner, hvalue] at hproperties
    cases hproperties
    exact .inl (.inl (.inl (.inl ⟨_, hs, rfl⟩)))
  | pattern hinner hs =>
    obtain ⟨entries, hvalue⟩ := hentries hs
    simp only [named, hinner, hvalue] at hpatterns
    cases hpatterns
    exact .inl (.inl (.inl (.inr ⟨_, hs, rfl⟩)))
  | items hinner hmap =>
    refine .inl (.inl (.inr ⟨_, ?_, rfl⟩))
    simp [held, hinner, hmap]
  | additional hinner hmap =>
    refine .inl (.inr ⟨_, ?_, rfl⟩)
    simp [held, hinner, hmap]
  | @way keyword inner s hkeyword hinner hs =>
    refine .inr ⟨s, List.mem_flatten.mpr ?_, rfl⟩
    obtain ⟨found, hfound, hlisted⟩ := exists_eq_ok_of_mapM hways hkeyword
    refine ⟨found, hfound, ?_⟩
    obtain ⟨i, x, hx, _⟩ := Located.mem_items_iff.mp hs
    cases hvalue : inner.value with
    | list items =>
      simp only [listed, hinner, hvalue] at hlisted
      cases hlisted
      exact hs
    | scalar a => simp [hvalue, Value.items] at hx
    | map entries => simp [hvalue, Value.items] at hx

/-- One of the visits with the schema and the name has been made, with all that it leads to. -/
def IsSettled (registry : Registry) (addresses : List String) (notes : Notes)
    (k : Place × Option String) : Prop :=
  ∃ v inner, Visits registry addresses v ∧ key v = k ∧ innerTasks v = .ok inner ∧
    ∀ t ∈ firstTasks v ++ inner, IsDone registry notes t

/-- The second notes hold what the first do. -/
structure Extends (notes notes' : Notes) : Prop where
  seen : notes.seen ⊆ notes'.seen
  fields : notes.fields ⊆ notes'.fields

theorem IsDone.mono {notes notes' : Notes} (h : Extends notes notes') {t : Task}
    (ht : IsDone registry notes t) : IsDone registry notes' t := by
  cases t with
  | visit v => exact fun hmap => h.seen (ht hmap)
  | follow v reference =>
    obtain ⟨s, scope, hfollow, hseen⟩ := ht
    exact ⟨s, scope, hfollow, fun hmap => h.seen (hseen hmap)⟩
  | note s property => exact fun letters hletters => h.fields (ht letters hletters)

/-- The most steps that a task takes by itself. -/
def weight : Task → Nat
  | .visit _ => 1
  | .follow .. => 2
  | .note .. => 1

/-- Pairs of schemas and names that a walk can come to. -/
abbrev Pairs := List (Located × Option String)

/-- The demands of the pairs not seen yet. -/
def openDemand (all : Pairs) (seen : List (Place × Option String)) : Nat :=
  (all.map fun e => if seen.contains (e.1.place, e.2) then 0 else demand e.1.value).sum

theorem openDemand_cons_le {all : Pairs} {seen : List (Place × Option String)} {s : Located}
    {property : Option String} (hmem : (s, property) ∈ all)
    (hseen : seen.contains (s.place, property) = false) :
    openDemand all ((s.place, property) :: seen) + demand s.value ≤ openDemand all seen := by
  have hle (e : Located × Option String) :
      (if List.contains ((s.place, property) :: seen) (e.1.place, e.2) then 0
        else demand e.1.value) ≤
      if seen.contains (e.1.place, e.2) then 0 else demand e.1.value := by
    by_cases he : seen.contains (e.1.place, e.2) = true
    · rw [if_pos he, if_pos (by rw [List.contains_cons, he, Bool.or_true])]
    · rw [if_neg he]
      split
      · exact Nat.zero_le _
      · exact Nat.le_refl _
  unfold openDemand
  induction all with
  | nil => cases hmem
  | cons e rest ih =>
    rw [List.map_cons, List.map_cons, List.sum_cons, List.sum_cons]
    rcases List.mem_cons.mp hmem with rfl | hrest
    · rw [if_pos (by simp), hseen, if_neg Bool.false_ne_true]
      have hothers : (rest.map fun e =>
          if List.contains ((s.place, property) :: seen) (e.1.place, e.2) then 0
            else demand e.1.value).sum ≤
          (rest.map fun e => if seen.contains (e.1.place, e.2) then 0 else demand e.1.value).sum := by
        clear ih hmem
        induction rest with
        | nil => exact Nat.le_refl _
        | cons e rest ih =>
          rw [List.map_cons, List.map_cons, List.sum_cons, List.sum_cons]
          exact Nat.add_le_add (hle e) ih
      dsimp only
      omega
    · have hfirst := hle e
      have hrest := ih hrest
      omega

theorem weight_pos (t : Task) : 0 < weight t := by
  cases t <;> simp [weight]

theorem sum_weight_firstTasks_le (v : Visit) : ((firstTasks v).map weight).sum ≤ 3 := by
  unfold firstTasks
  rw [List.map_append, List.sum_append_nat]
  have hnote : (List.map weight ((isNoted v.property).toList.map (Task.note v.schema))).sum ≤ 1 := by
    cases isNoted v.property with
    | none => exact Nat.zero_le _
    | some property => exact Nat.le_refl _
  refine Nat.add_le_add (?_ : _ ≤ 2) hnote
  split
  · exact Nat.le_refl _
  · exact Nat.zero_le _

theorem eq_visit_of_mem_innerTasks {v : Visit} {tasks : List Task} (h : innerTasks v = .ok tasks) :
    ∀ t ∈ tasks, ∃ w, t = .visit w := by
  obtain ⟨properties, _, h⟩ := bind_eq_ok_iff.mp h
  obtain ⟨patterns, _, h⟩ := bind_eq_ok_iff.mp h
  obtain ⟨ways, _, h⟩ := bind_eq_ok_iff.mp h
  cases h
  intro t ht
  simp only [List.mem_append, List.mem_map] at ht
  obtain ((((⟨_, _, rfl⟩ | ⟨_, _, rfl⟩) | ⟨_, _, rfl⟩) | ⟨_, _, rfl⟩) | ⟨_, _, rfl⟩) := ht
  all_goals exact ⟨_, rfl⟩

theorem sum_weight_innerTasks {v : Visit} {tasks : List Task} (h : innerTasks v = .ok tasks) :
    (tasks.map weight).sum = tasks.length := by
  have hvisits := eq_visit_of_mem_innerTasks h
  clear h
  induction tasks with
  | nil => rfl
  | cons t rest ih =>
    obtain ⟨w, rfl⟩ := hvisits t List.mem_cons_self
    rw [List.map_cons, List.sum_cons, ih fun t ht => hvisits t (List.mem_cons_of_mem _ ht),
      List.length_cons, weight, Nat.add_comm]

/-- A walk that does the tasks and those that follow from them, down to the last one. -/
inductive Finishes (registry : Registry) : List Task → Notes → Notes → Prop where
  | nil {notes} : Finishes registry [] notes notes
  | note {s property rest notes noted result} : noteOn s property notes = .ok noted →
      Finishes registry rest noted result → Finishes registry (.note s property :: rest) notes result
  | follow {v reference s scope rest notes result} :
      Schema.follow registry v.scope reference = .ok (s, scope) →
      Finishes registry (.visit ⟨s, scope, v.property⟩ :: rest) notes result →
      Finishes registry (.follow v reference :: rest) notes result
  | pass {v rest notes result} : (v.schema.value.isMap = true → key v ∈ notes.seen) →
      Finishes registry rest notes result → Finishes registry (.visit v :: rest) notes result
  | visit {v inner rest notes result} : v.schema.value.isMap = true → key v ∉ notes.seen →
      innerTasks v = .ok inner →
      Finishes registry (firstTasks v ++ inner ++ rest) { notes with seen := key v :: notes.seen }
        result →
      Finishes registry (.visit v :: rest) notes result

/-- With enough steps, a walk finishes. -/
theorem finishes_of_run {all : Pairs} (hall : ∀ v, Visits registry addresses v →
      v.schema.value.isMap = true → (v.schema, v.property) ∈ all) (fuel : Nat) :
    ∀ (tasks : List Task) (notes notes' : Notes), (∀ t ∈ tasks, IsDue registry addresses t) →
      (tasks.map weight).sum + openDemand all notes.seen ≤ fuel →
      run registry fuel tasks notes = .ok notes' → Finishes registry tasks notes notes' := by
  induction fuel with
  | zero =>
    intro tasks notes notes' _ hfuel hrun
    cases hrun
    cases tasks with
    | nil => exact .nil
    | cons t rest =>
      have hpos := weight_pos t
      rw [List.map_cons, List.sum_cons] at hfuel
      omega
  | succ fuel ih =>
    intro tasks notes notes' hdue hfuel hrun
    cases tasks with
    | nil =>
      cases hrun
      exact .nil
    | cons t rest =>
      obtain ⟨hdue, hrest⟩ := List.forall_mem_cons.mp hdue
      rw [List.map_cons, List.sum_cons] at hfuel
      cases t with
      | note s property =>
        obtain ⟨noted, hnote, hrun⟩ := bind_eq_ok_iff.mp hrun
        have hseen : noted.seen = notes.seen := by rw [noteOn_eq_ok hnote]
        rw [weight] at hfuel
        exact .note hnote (ih rest noted notes' hrest (by rw [hseen]; omega) hrun)
      | follow v reference =>
        rw [run] at hrun
        cases hfollow : follow registry v.scope reference with
        | error fault => simp [hfollow] at hrun
        | ok target =>
          obtain ⟨s, scope⟩ := target
          simp only [hfollow] at hrun
          exact .follow hfollow (ih _ notes notes'
            (List.forall_mem_cons.mpr ⟨hdue.visit_of_follow hfollow, hrest⟩)
            (by simp [weight] at hfuel ⊢; omega) hrun)
      | visit v =>
        have hv := hdue.visits
        rw [run] at hrun
        rw [weight] at hfuel
        split at hrun
        · next hskip =>
          exact .pass (fun hmap => by simpa [hmap, key] using hskip)
            (ih rest notes notes' hrest (by omega) hrun)
        · next hnew =>
          rw [Bool.or_eq_true, not_or, Bool.not_eq_true', Bool.not_eq_false,
            Bool.not_eq_true] at hnew
          obtain ⟨inner, hinner, hrun⟩ := bind_eq_ok_iff.mp hrun
          have hopen := openDemand_cons_le (hall v hv hnew.1) hnew.2
          have hlength := length_innerTasks_le hinner
          have hfirst := sum_weight_firstTasks_le v
          have hsum := sum_weight_innerTasks hinner
          refine .visit hnew.1 (fun hseen => ?_) hinner (ih (firstTasks v ++ inner ++ rest) _ notes'
            (isDue_tasks hv ((ends_innerTasks hv).of_ok hinner) hrest)
            (by simp only [List.map_append, List.sum_append_nat, key]; omega) hrun)
          have hcontains := List.contains_iff_mem.mpr hseen
          exact absurd hcontains (Bool.eq_false_iff.mp hnew.2)

/-- When a walk finishes, all tasks are done and all schemas that are newly seen are settled. -/
theorem Finishes.settles {tasks : List Task} {notes notes' : Notes}
    (h : Finishes registry tasks notes notes') (hdue : ∀ t ∈ tasks, IsDue registry addresses t) :
    Extends notes notes' ∧ (∀ t ∈ tasks, IsDone registry notes' t) ∧
      ∀ k ∈ notes'.seen, k ∈ notes.seen ∨ IsSettled registry addresses notes' k := by
  induction h with
  | nil => exact ⟨⟨List.Subset.refl _, List.Subset.refl _⟩, by simp, fun k hk => .inl hk⟩
  | @note s property rest notes noted result hnote _ ih =>
    have hnoted := noteOn_eq_ok hnote
    have hseen : noted.seen = notes.seen := by rw [hnoted]
    obtain ⟨hextends, hdone, hsettled⟩ := ih (List.forall_mem_cons.mp hdue).2
    rw [hseen] at hsettled
    refine ⟨⟨hseen ▸ hextends.seen, fun f hf => hextends.fields ?_⟩,
      List.forall_mem_cons.mpr ⟨fun letters hletters => hextends.fields ?_, hdone⟩, hsettled⟩
    · rw [hnoted]
      exact List.mem_append_right _ hf
    · rw [hnoted, hletters]
      exact List.mem_append_left _ (by simp)
  | follow hfollow _ ih =>
    obtain ⟨hdue, hrest⟩ := List.forall_mem_cons.mp hdue
    obtain ⟨hextends, hdone, hsettled⟩ :=
      ih (List.forall_mem_cons.mpr ⟨hdue.visit_of_follow hfollow, hrest⟩)
    obtain ⟨hvisit, hdone⟩ := List.forall_mem_cons.mp hdone
    exact ⟨hextends, List.forall_mem_cons.mpr ⟨⟨_, _, hfollow, hvisit⟩, hdone⟩, hsettled⟩
  | pass hpass _ ih =>
    obtain ⟨hextends, hdone, hsettled⟩ := ih (List.forall_mem_cons.mp hdue).2
    exact ⟨hextends, List.forall_mem_cons.mpr ⟨fun hmap => hextends.seen (hpass hmap), hdone⟩,
      hsettled⟩
  | @visit v inner rest notes result _ _ hinner _ ih =>
    obtain ⟨hdue, hrest⟩ := List.forall_mem_cons.mp hdue
    have hv := hdue.visits
    obtain ⟨hextends, hdone, hsettled⟩ :=
      ih (isDue_tasks hv ((ends_innerTasks hv).of_ok hinner) hrest)
    refine ⟨⟨fun k hk => hextends.seen (List.mem_cons_of_mem _ hk), hextends.fields⟩,
      List.forall_mem_cons.mpr ⟨fun _ => hextends.seen List.mem_cons_self,
        fun t ht => hdone t (List.mem_append_right _ ht)⟩, fun k hk => ?_⟩
    rcases hsettled k hk with hk | hk
    · rcases List.mem_cons.mp hk with rfl | hk
      · exact .inr ⟨v, inner, hv, rfl, hinner, fun t ht => hdone t (List.mem_append_left _ ht)⟩
      · exact .inl hk
    · exact .inr hk

/-! ### The whole walk -/

/-- The names of properties in schemas, and that there is none. -/
def propertyNames (schemas : List Value) : List (Option String) :=
  none :: (allParts schemas).flatMap fun s => s.value.entries.map fun e => some e.1.text

theorem length_propertyNames_le (schemas : List Value) :
    (propertyNames schemas).length ≤ demands (allParts schemas) + 1 := by
  rw [propertyNames, List.length_cons, List.length_flatMap]
  refine Nat.succ_le_succ ?_
  unfold demands
  induction allParts schemas with
  | nil => exact Nat.le_refl _
  | cons s rest ih =>
    rw [List.map_cons, List.map_cons, List.sum_cons, List.sum_cons]
    refine Nat.add_le_add ?_ ih
    rw [List.length_map, demand]
    cases s.value with
    | map entries =>
      simp only [Value.entries, breadth]
      omega
    | scalar x => exact Nat.zero_le _
    | list items => exact Nat.zero_le _

/-- All pairs of a part of the schemas and a name in them. -/
def allPairs (schemas : List Value) : Pairs :=
  (allParts schemas).flatMap fun s => (propertyNames schemas).map fun name => (s, name)

theorem openDemand_allPairs (schemas : List Value) :
    openDemand (allPairs schemas) [] =
      (propertyNames schemas).length * demands (allParts schemas) := by
  unfold allPairs openDemand demands
  induction allParts schemas with
  | nil => rfl
  | cons s rest ih =>
    rw [List.flatMap_cons, List.map_append, List.sum_append_nat, ih, List.map_cons, List.sum_cons,
      Nat.mul_add, List.map_map]
    refine congrArg (· + _) ?_
    rw [← List.sum_replicate_nat, ← List.map_const']
    rfl

/-- What a walk goes on to from a part of the schemas is a part of them. -/
theorem isIn_of_enters {schemas : List Value} {v w : Visit} (hv : v.schema.IsIn schemas)
    (hw : Enters v w) : w.schema.IsIn schemas := by
  cases hw with
  | property hinner hs => exact (hv.of_get? hinner).of_mem_entries hs
  | pattern hinner hs => exact (hv.of_get? hinner).of_mem_entries hs
  | items hinner _ => exact hv.of_get? hinner
  | additional hinner _ => exact hv.of_get? hinner
  | way _ hinner hs => exact (hv.of_get? hinner).of_mem_items hs

/-- What is visited is in the schemas, and so is the name. -/
theorem mem_propertyNames {schemas : List Value} (hregistry : registry.IsOver schemas) {v : Visit}
    (hv : Visits registry addresses v) :
    v.schema.IsIn schemas ∧ v.property ∈ propertyNames schemas := by
  induction hv with
  | start haddress hfollow => exact ⟨isIn_of_follow hregistry hfollow, List.mem_cons_self⟩
  | reference hv htarget hfollow ih => exact ⟨isIn_of_follow hregistry hfollow, ih.2⟩
  | @inner v w hv hw ih =>
    refine ⟨isIn_of_enters ih.1 hw, ?_⟩
    cases hw with
    | @property inner name s hinner hs =>
      have hin := ih.1.of_get? hinner
      refine List.mem_cons_of_mem _ ?_
      obtain ⟨i, x, hentry, rfl⟩ := Located.mem_entries_iff.mp hs
      have hmem := List.mem_of_getElem? hentry
      refine List.mem_flatMap.mpr ⟨inner, mem_allParts hin fun x hx => ?_,
        List.mem_map.mpr ⟨_, hmem, rfl⟩⟩
      rw [hx] at hmem
      cases hmem
    | pattern _ _ => exact List.mem_cons_self
    | items _ _ => exact ih.2
    | additional _ _ => exact List.mem_cons_self
    | way _ _ _ => exact ih.2

theorem foldl_size (resources : List (String × Located)) (n : Nat) :
    resources.foldl (fun n r => n + size r.2.value) n =
      n + (resources.map fun r => size r.2.value).sum := by
  induction resources generalizing n with
  | nil => rfl
  | cons r rest ih =>
    rw [List.foldl_cons, ih, List.map_cons, List.sum_cons, Nat.add_assoc]

theorem bound_ofSchemas (schemas : List (String × Value)) :
    bound (.ofSchemas schemas) =
      (5 * (2 + ((schemas.map (·.2)).map size).sum)) *
        (5 * (2 + ((schemas.map (·.2)).map size).sum)) := by
  have hsizes : ((Registry.ofSchemas schemas).resources.map fun r => size r.2.value).sum =
      ((schemas.map (·.2)).map size).sum := by
    unfold Registry.ofSchemas
    dsimp only
    rw [List.map_reverse, List.sum_reverse, List.map_map, List.map_map]
    conv_rhs => rw [← List.zipIdx_map_fst 0 schemas, List.map_map]
    rfl
  rw [bound, foldl_size, hsizes]

theorem length_le_sum_size (schemas : List Value) : schemas.length ≤ (schemas.map size).sum := by
  induction schemas with
  | nil => exact Nat.le_refl _
  | cons v rest ih =>
    have hpos : 0 < size v := by cases v <;> simp [size]
    rw [List.length_cons, List.map_cons, List.sum_cons]
    omega

/-- The first task of a walk, for the address of a document type. -/
def start (address : String) : Task := .follow ⟨⟨.null, ⟨0, []⟩⟩, {}, none⟩ address

theorem isDue_start : ∀ t ∈ addresses.map start, IsDue registry addresses t := by
  intro t ht
  obtain ⟨address, haddress, rfl⟩ := List.mem_map.mp ht
  exact .start haddress

section Whole

variable {schemas : List (String × Value)} {notes : Notes}

theorem mem_allPairs (v : Visit) (hv : Visits (.ofSchemas schemas) addresses v)
    (hmap : v.schema.value.isMap = true) :
    (v.schema, v.property) ∈ allPairs (schemas.map (·.2)) := by
  obtain ⟨hin, hname⟩ := mem_propertyNames (Registry.isOver_ofSchemas schemas) hv
  refine List.mem_flatMap.mpr ⟨v.schema, mem_allParts hin fun x hx => ?_,
    List.mem_map.mpr ⟨v.property, hname, rfl⟩⟩
  rw [hx] at hmap
  cases hmap

/-- All that a walk through schemas from some of them has to do stays within the bound. -/
theorem le_bound (hcount : addresses.length ≤ schemas.length) :
    ((addresses.map start).map weight).sum +
      openDemand (allPairs (schemas.map (·.2))) [] ≤ bound (.ofSchemas schemas) := by
  have hweight : ((addresses.map start).map weight).sum = 2 * addresses.length := by
    rw [List.map_map, Nat.mul_comm, ← List.sum_replicate_nat, ← List.map_const']
    rfl
  have hnames := length_propertyNames_le (schemas.map (·.2))
  have hdemands := demands_allParts_le (schemas.map (·.2))
  have hsizes := length_le_sum_size (schemas.map (·.2))
  rw [List.length_map] at hsizes
  rw [bound_ofSchemas, hweight, openDemand_allPairs]
  generalize ((schemas.map (·.2)).map size).sum = n at *
  generalize demands (allParts (schemas.map (·.2))) = d at *
  calc 2 * addresses.length + (propertyNames (schemas.map (·.2))).length * d
      ≤ 2 * n + (5 * n + 1) * (5 * n) :=
        Nat.add_le_add (by omega) (Nat.mul_le_mul (by omega) hdemands)
    _ ≤ (5 * (2 + n)) * (5 * (2 + n)) := by
        ring_nf
        omega

/-- A walk through schemas from some of them finishes. -/
theorem finishes_ofAddresses (hcount : addresses.length ≤ schemas.length)
    (h : ofAddresses (.ofSchemas schemas) addresses = .ok notes) :
    Finishes (.ofSchemas schemas) (addresses.map start) {} notes :=
  finishes_of_run mem_allPairs _ _ _ notes isDue_start (le_bound hcount) h

/-- A walk through schemas from some of them does all that there is to do. -/
theorem ofAddresses_covers (hcount : addresses.length ≤ schemas.length)
    (h : ofAddresses (.ofSchemas schemas) addresses = .ok notes) :
    (∀ address ∈ addresses, ∃ s scope, follow (.ofSchemas schemas) {} address = .ok (s, scope) ∧
        (s.value.isMap = true → (s.place, none) ∈ notes.seen)) ∧
      ∀ k ∈ notes.seen, IsSettled (.ofSchemas schemas) addresses notes k := by
  obtain ⟨_, hdone, hsettled⟩ := (finishes_ofAddresses hcount h).settles isDue_start
  refine ⟨fun address haddress => hdone _ (List.mem_map_of_mem haddress), fun k hk => ?_⟩
  exact (hsettled k hk).resolve_left List.not_mem_nil

end Whole

end Walk

end Schema

end BusinessModel
