import BusinessModel.Document.Load
import BusinessModel.Proofs.Outcome

/-!
Errors that interrupt reading. Most of what can be wrong with a text is reported as an issue. The
errors that are not come from one of four places: the events end early with such an error, the
document is of an unknown edition, a scalar has the form of a value that does not exist, or an
ordered map has entries that it cannot hold.
-/

namespace BusinessModel

namespace Ends

variable {α : Type} {P : Yaml.Fault → Prop} {Q : α → Prop}

theorem fault {e : Yaml.Error} (h : P (0, e)) : Ends P Q (Yaml.fault e) := .error h

theorem nextRound {x : Except Yaml.Fault α} (h : Ends P Q x)
    (hP : ∀ round e, P (round, e) → P (round + 1, e)) : Ends P Q (Yaml.nextRound x) := by
  cases x with
  | ok a => exact .ok (h.of_ok rfl)
  | error f => exact .error (hP _ _ (h.of_error rfl))

theorem firstFault {results : List (Except Yaml.Fault α)}
    (h : ∀ x ∈ results, Ends P (fun _ => True) x) :
    Ends P (fun _ => True) (Yaml.firstFault results) := by
  unfold Yaml.firstFault
  extract_lets faults
  have hfaults : ∀ f ∈ faults, P f := by
    intro f hf
    obtain ⟨x, hx, hxf⟩ := List.mem_filterMap.mp hf
    cases x with
    | ok a => cases hxf
    | error g =>
      cases hxf
      exact (h _ hx).of_error rfl
  cases hlist : faults with
  | nil => exact .ok trivial
  | cons f fs =>
    refine .error (hfaults _ ?_)
    rw [hlist]
    refine foldl_choice_mem (fun a b => ?_) f fs
    split
    · exact Or.inr rfl
    · exact Or.inl rfl

end Ends

namespace Yaml

/-- An error that is reported as an issue. -/
def Error.IsReported (e : Error) : Prop := (issueOf? e).isSome = true

/-! ### Nodes inside nodes -/

/-- A node is another, or lies inside it. -/
inductive Node.IsIn (n : Node) : Node → Prop where
  | self : IsIn n n
  | item {anchor tag place items x} : x ∈ items → IsIn n x →
      IsIn n (.sequence anchor tag place items)
  | key {anchor tag place entries k v} : (k, v) ∈ entries → IsIn n k →
      IsIn n (.mapping anchor tag place entries)
  | value {anchor tag place entries k v} : (k, v) ∈ entries → IsIn n v →
      IsIn n (.mapping anchor tag place entries)

theorem Node.IsIn.trans {a b c : Node} (hab : a.IsIn b) (hbc : b.IsIn c) : a.IsIn c := by
  induction hbc with
  | self => exact hab
  | item hx _ ih => exact .item hx ih
  | key hk _ ih => exact .key hk ih
  | value hv _ ih => exact .value hv ih

mutual

/-- The anchored nodes of a node lie in it. -/
theorem Node.isIn_of_mem_anchored {number : Nat} {n : Node} :
    ∀ root : Node, (number, n) ∈ root.anchored → n.IsIn root
  | .scalar (some _) .., h => by
    cases List.mem_singleton.mp h
    exact .self
  | .scalar none .., h => by cases h
  | .sequence a tag place xs, h => by
    rcases List.mem_append.mp h with h | h
    · cases a with
      | none => cases h
      | some m =>
        cases List.mem_singleton.mp h
        exact .self
    · obtain ⟨x, hx, hn⟩ := exists_of_mem_anchoredItems xs h
      exact .item hx hn
  | .mapping a tag place xs, h => by
    rcases List.mem_append.mp h with h | h
    · cases a with
      | none => cases h
      | some m =>
        cases List.mem_singleton.mp h
        exact .self
    · obtain ⟨k, v, hkv, hn | hn⟩ := exists_of_mem_anchoredEntries xs h
      · exact .key hkv hn
      · exact .value hkv hn
  | .aliasOf .., h => by cases h

theorem Node.exists_of_mem_anchoredItems {number : Nat} {n : Node} :
    ∀ xs : List Node, (number, n) ∈ Node.anchoredItems xs → ∃ x ∈ xs, n.IsIn x
  | [], h => by cases h
  | x :: xs, h => by
    rcases List.mem_append.mp h with h | h
    · exact ⟨x, List.mem_cons_self, isIn_of_mem_anchored x h⟩
    · obtain ⟨y, hy, hn⟩ := exists_of_mem_anchoredItems xs h
      exact ⟨y, List.mem_cons_of_mem _ hy, hn⟩

theorem Node.exists_of_mem_anchoredEntries {number : Nat} {n : Node} :
    ∀ xs : List (Node × Node), (number, n) ∈ Node.anchoredEntries xs →
      ∃ k v, (k, v) ∈ xs ∧ (n.IsIn k ∨ n.IsIn v)
  | [], h => by cases h
  | (k, v) :: xs, h => by
    rcases List.mem_append.mp h with h | h
    · rcases List.mem_append.mp h with h | h
      · exact ⟨k, v, List.mem_cons_self, .inl (isIn_of_mem_anchored k h)⟩
      · exact ⟨k, v, List.mem_cons_self, .inr (isIn_of_mem_anchored v h)⟩
    · obtain ⟨k', v', hkv, hn⟩ := exists_of_mem_anchoredEntries xs h
      exact ⟨k', v', List.mem_cons_of_mem _ hkv, hn⟩

end

/-! ### Errors while nodes are put together -/

namespace Composing

/-- A step of putting nodes together keeps the error behind the events and the edition. It fails with
an error that is reported, with the one behind the events, or because the edition is unknown. -/
structure Interrupts (failure : Option Error) (edition : Edition) {α : Type}
    (x : Composing α) : Prop where
  keeps : ∀ s a s', s.failure = failure → s.edition = edition → x.run s = .ok (a, s') →
    s'.failure = failure ∧ s'.edition = edition
  fails : ∀ s e, s.failure = failure → s.edition = edition → x.run s = .error e →
    e.IsReported ∨ failure = some e ∨ edition = .unknown ∧ e = .unknownEdition

variable {failure : Option Error} {edition : Edition} {α β : Type}

namespace Interrupts

theorem pure (a : α) : Interrupts failure edition (Pure.pure a) := by
  constructor
  · intro s b s' hfailure hedition h
    cases h
    exact ⟨hfailure, hedition⟩
  · intro s e _ _ h
    cases h

theorem bind {x : Composing α} {f : α → Composing β} (hx : Interrupts failure edition x)
    (hf : ∀ a, Interrupts failure edition (f a)) : Interrupts failure edition (x >>= f) := by
  constructor
  · intro s b s' hfailure hedition h
    obtain ⟨⟨a, t⟩, hrun, h⟩ := bind_eq_ok_iff.mp (StateT.run_bind x f s ▸ h)
    obtain ⟨hfailure, hedition⟩ := hx.keeps s a t hfailure hedition hrun
    exact (hf a).keeps t b s' hfailure hedition h
  · intro s e hfailure hedition h
    rcases bind_eq_error_iff.mp (StateT.run_bind x f s ▸ h) with h | ⟨⟨a, t⟩, hrun, h⟩
    · exact hx.fails s e hfailure hedition h
    · obtain ⟨hfailure, hedition⟩ := hx.keeps s a t hfailure hedition hrun
      exact (hf a).fails t e hfailure hedition h

theorem throw {e : Error}
    (h : e.IsReported ∨ failure = some e ∨ edition = .unknown ∧ e = .unknownEdition) :
    Interrupts failure edition (throw e : Composing α) := by
  constructor
  · intro s a s' _ _ h
    cases h
  · intro s e' _ _ he
    cases he
    exact h

/-- Nothing is done behind an error. -/
theorem throw_bind {e : Error} {f : α → Composing β}
    (h : e.IsReported ∨ failure = some e ∨ edition = .unknown ∧ e = .unknownEdition) :
    Interrupts failure edition ((MonadExcept.throw e : Composing α) >>= f) := by
  constructor
  · intro s a s' _ _ h
    cases h
  · intro s e' _ _ he
    cases he
    exact h

/-- Looking at the state shows the edition. -/
theorem get_bind {f : Composer → Composing β}
    (hf : ∀ s, s.edition = edition → Interrupts failure edition (f s)) :
    Interrupts failure edition (get >>= f) := by
  constructor
  · intro s b s' hfailure hedition h
    exact (hf s hedition).keeps s b s' hfailure hedition h
  · intro s e hfailure hedition h
    exact (hf s hedition).fails s e hfailure hedition h

end Interrupts

theorem interrupts_peek : Interrupts failure edition peek := by
  constructor
  · intro s a s' hfailure hedition h
    obtain ⟨events, failure', edition', anchors, anchored⟩ := s
    cases events with
    | cons e rest =>
      cases h
      exact ⟨hfailure, hedition⟩
    | nil =>
      cases failure' with
      | none =>
        cases h
        exact ⟨hfailure, hedition⟩
      | some e => cases h
  · intro s e hfailure hedition h
    obtain ⟨events, failure', edition', anchors, anchored⟩ := s
    cases events with
    | cons e rest => cases h
    | nil =>
      cases failure' with
      | none => cases h
      | some e =>
        cases h
        exact .inr (.inl hfailure.symm)

theorem interrupts_drop : Interrupts failure edition drop := by
  constructor
  · intro s a s' hfailure hedition h
    cases h
    exact ⟨hfailure, hedition⟩
  · intro s e _ _ h
    cases h

theorem interrupts_register (name : Option String) (place : Mark) :
    Interrupts failure edition (register name place) := by
  cases name with
  | none => exact .pure _
  | some name =>
    constructor
    · intro s a s' hfailure hedition h
      cases h
      exact ⟨hfailure, hedition⟩
    · intro s e _ _ h
      cases h

theorem interrupts_scalarTag (tag : Option String) (implicit : Bool) (text : String) :
    Interrupts failure edition (scalarTag tag implicit text) := by
  unfold scalarTag
  by_cases htag : (tag.isSome && tag != some "!") = true
  · rw [if_pos htag]
    exact .pure _
  · rw [if_neg htag]
    by_cases himplicit : (!implicit) = true
    · rw [if_pos himplicit]
      exact .pure _
    · rw [if_neg himplicit]
      refine .get_bind fun s hedition => ?_
      dsimp only
      by_cases hunknown : (s.edition == Edition.unknown) = true
      · rw [if_pos hunknown]
        refine .throw_bind (.inr (.inr ⟨?_, rfl⟩))
        rw [← hedition]
        exact beq_iff_eq.mp hunknown
      · rw [if_neg hunknown]
        exact .pure _

/-- Putting nodes together fails only in these ways, whatever the events are. -/
theorem interrupts_node (fuel : Nat) :
    (∀ depth, Interrupts failure edition (node fuel depth)) ∧
      (∀ depth seen, Interrupts failure edition (items fuel depth seen)) ∧
      ∀ depth seen, Interrupts failure edition (entries fuel depth seen) := by
  induction fuel with
  | zero => exact ⟨fun _ => .throw (.inl rfl), fun _ _ => .throw (.inl rfl),
      fun _ _ => .throw (.inl rfl)⟩
  | succ fuel ih =>
    obtain ⟨hnode, hitems, hentries⟩ := ih
    refine ⟨fun depth => ?_, fun depth seen => ?_, fun depth seen => ?_⟩
    · rw [node]
      by_cases hdeep : depth > maxNesting
      · rw [if_pos hdeep]
        exact .throw_bind (.inl rfl)
      · rw [if_neg hdeep]
        refine .bind interrupts_peek fun e => ?_
        cases e with
        | aliasOf name place =>
          refine .bind interrupts_drop fun _ => .get_bind fun s _ => ?_
          cases s.anchors.lookup name with
          | none => exact .throw (.inl rfl)
          | some target => exact .pure _
        | scalar anchor tag implicit text place =>
          exact .bind interrupts_drop fun _ => .bind (interrupts_scalarTag ..) fun _ =>
            .bind (interrupts_register ..) fun _ => .pure _
        | sequenceStart anchor tag place =>
          exact .bind interrupts_drop fun _ => .bind (interrupts_register ..) fun _ =>
            .bind (hitems ..) fun _ => .pure _
        | mappingStart anchor tag place =>
          exact .bind interrupts_drop fun _ => .bind (interrupts_register ..) fun _ =>
            .bind (hentries ..) fun _ => .pure _
        | _ => exact .pure _
    · rw [items]
      refine .bind interrupts_peek fun e => ?_
      by_cases hend : (e == Event.sequenceEnd) = true
      · rw [if_pos hend]
        exact .bind interrupts_drop fun _ => .pure _
      · rw [if_neg hend]
        exact .bind (hnode _) fun n => hitems _ _
    · rw [entries]
      refine .bind interrupts_peek fun e => ?_
      by_cases hend : (e == Event.mappingEnd) = true
      · rw [if_pos hend]
        exact .bind interrupts_drop fun _ => .pure _
      · rw [if_neg hend]
        exact .bind (hnode _) fun k => .bind (hnode _) fun v => hentries _ _

theorem interrupts_document : Interrupts failure edition document := by
  refine .bind interrupts_peek fun _ => .bind interrupts_drop fun _ => ?_
  refine .bind interrupts_peek fun e => ?_
  extract_lets finish
  have hfinish (root : Option Node) : Interrupts failure edition (finish root) := by
    refine .bind interrupts_peek fun e => ?_
    cases e with
    | streamEnd => exact .pure _
    | _ => exact .throw (.inl rfl)
  have hroot : Interrupts failure edition (do
      drop
      let n ← node (2 * (← get).events.length + 4) 0
      let _ ← peek
      drop
      finish (some n)) :=
    .bind interrupts_drop fun _ => .get_bind fun s _ => .bind ((interrupts_node _).1 _) fun n =>
      .bind interrupts_peek fun _ => .bind interrupts_drop fun _ => hfinish (some n)
  cases e with
  | streamEnd => exact hfinish none
  | _ => exact hroot

end Composing

/-- What keeps nodes from being put together: an error that is reported, the one behind the events,
or an unknown edition. -/
theorem Node.ofEvents?_eq_error {s : EventStream} {e : Error} (h : Node.ofEvents? s = .error e) :
    e.IsReported ∨ s.failure = some e ∨ Edition.ofVersion s.version = .unknown ∧ e = .unknownEdition := by
  rcases bind_eq_error_iff.mp h with h | ⟨_, _, h⟩
  · exact Composing.interrupts_document.fails _ e rfl rfl h
  · cases h

/-! ### Errors while nodes are loaded -/

/-- Why the loading of a root node of the edition fails with an error: the error is reported, a
scalar in it has the form of a value that does not exist, or an ordered map cannot hold its
entries. -/
inductive Loading.Cause (edition : Edition) (root : Node) : Error → Prop where
  | reported {e} : e.IsReported → Cause edition root e
  | scalar {anchor tag text place e} : (Node.scalar anchor tag text place).IsIn root →
      Datum.ofText edition tag anchor.isSome place text = .error e → Cause edition root e
  | orderedMap {anchor place items e} : (Node.sequence anchor .orderedMap place items).IsIn root →
      e = .scalarText ∨ e = .repeatedOrderedKey → Cause edition root e

namespace Loading

variable {l : Loading} {root : Node}

theorem ends_addEntry (place keyPlace : Mark) (seen : List LoadedEntry) (e : LoadedEntry) :
    Ends (·.2.IsReported) (fun _ => True) (addEntry place keyPlace seen e) := by
  unfold addEntry
  cases seen.find? (·.key.same e.key) with
  | none => exact .ok trivial
  | some earlier => exact .fault rfl

/-- An alias stands for a node of the document. -/
theorem isIn_resolve (hanchored : l.anchored = root.anchored) {n : Node} (hn : n.IsIn root) :
    (l.resolve n).IsIn root := by
  cases n with
  | aliasOf target place =>
    rw [resolve]
    cases hlookup : l.anchored.lookup target with
    | none => exact hn
    | some m =>
      obtain ⟨before, after, hsplit, _⟩ := List.lookup_eq_some_iff.mp hlookup
      have hmem : (target, m) ∈ root.anchored := by
        rw [← hanchored, hsplit]
        exact List.mem_append_right _ List.mem_cons_self
      exact Node.isIn_of_mem_anchored root hmem
  | _ => exact hn

/-- What a merge key names lies in the document. -/
theorem ends_mergeSources (hanchored : l.anchored = root.anchored) (place : Mark) {value : Node}
    (hvalue : value.IsIn root) :
    Ends (·.2.IsReported) (fun sources => ∀ n ∈ sources, n.IsIn root)
      (l.mergeSources place value) := by
  have hresolved := isIn_resolve hanchored hvalue
  unfold mergeSources
  cases hnode : l.resolve value with
  | mapping => exact .ok (by simpa using hvalue)
  | sequence anchor tag m items =>
    rw [hnode] at hresolved
    refine .mapM fun item hitem => ?_
    cases l.resolve item with
    | mapping => exact .ok ((Node.IsIn.item hitem .self).trans hresolved)
    | _ => exact .fault rfl
  | _ => exact .fault rfl

theorem ends_singleEntries (context : Context) (place : Mark) {items : List Node}
    (hitems : ∀ n ∈ items, n.IsIn root) :
    Ends (·.2.IsReported) (fun es => ∀ e ∈ es, e.1.IsIn root ∧ e.2.IsIn root)
      (singleEntries context place items) := by
  refine .mapM fun item hitem => ?_
  have hin := hitems item hitem
  split
  · next e => exact .ok ⟨(Node.IsIn.key (v := e.2) List.mem_cons_self .self).trans hin,
      (Node.IsIn.value (k := e.1) List.mem_cons_self .self).trans hin⟩
  · exact .fault rfl
  · exact .fault rfl

/-- The error for a collection of the wrong kind is reported. -/
theorem isReported_of_misfit? {tag : Tag} {kind : String} {place : Mark} {strict : Bool} {e : Error}
    (h : misfit? tag kind place strict = some e) : e.IsReported := by
  cases tag <;> cases strict <;> cases h <;> rfl

theorem mem_of_splitMerges {entries : List (Node × Node)} {e : Node × Node}
    (h : e ∈ (splitMerges entries).1 ∨ e ∈ (splitMerges entries).2) : e ∈ entries := by
  rw [splitMerges, List.partition_eq_filter_filter] at h
  rcases h with h | h
  · exact List.mem_of_mem_filter h
  · exact List.mem_of_mem_filter h

/-- A fault that is put off to the next round keeps its cause. -/
theorem ends_content {α : Type} {x : Except Fault α} {deep : Bool}
    (h : Ends (Cause l.edition root ·.2) (fun _ => True) x) :
    Ends (Cause l.edition root ·.2) (fun _ => True) (if deep then x else nextRound x) := by
  split
  · exact h
  · exact h.nextRound fun _ _ he => he

theorem ends_load_scalar (fuel : Nat) (deep : Bool) (pending : List (Nat × Bool))
    {anchor : Option Nat} {tag : Tag} {text : String} {place : Mark}
    (hn : (Node.scalar anchor tag text place).IsIn root) :
    Ends (Cause l.edition root ·.2) (fun _ => True)
      (l.load (fuel + 1) deep pending (.scalar anchor tag text place)) := by
  unfold load
  extract_lets strict content within datum
  dsimp only [datum]
  clear_value strict
  split
  · exact .fault (.reported rfl)
  · cases hvalue : Datum.ofText l.edition tag anchor.isSome place text with
    | ok d => exact .ok trivial
    | error e => exact .fault (.scalar hn hvalue)

section Inner

variable (hanchored : l.anchored = root.anchored) {fuel : Nat}
  (ih : ∀ deep pending n, n.IsIn root →
    Ends (Cause l.edition root ·.2) (fun _ => True) (l.load fuel deep pending n))

include hanchored

theorem ends_load_aliasOf (deep : Bool) (pending : List (Nat × Bool)) {target : Nat} {place : Mark}
    (hn : (Node.aliasOf target place).IsIn root) :
    Ends (Cause l.edition root ·.2) (fun _ => True)
      (l.load (fuel + 1) deep pending (.aliasOf target place)) := by
  have htarget := isIn_resolve hanchored hn
  unfold load
  extract_lets strict content within datum
  dsimp only
  split
  · exact .ok trivial
  · exact .ok trivial
  · cases hresolve : l.resolve (.aliasOf target place) with
    | scalar anchor tag text place =>
      exact ends_load_scalar fuel deep pending (hresolve ▸ htarget)
    | _ => exact .ok trivial

omit hanchored
include ih

theorem ends_load_sequence (deep : Bool) (pending : List (Nat × Bool)) {anchor : Option Nat}
    {tag : Tag} {place : Mark} {items : List Node}
    (hn : (Node.sequence anchor tag place items).IsIn root) :
    Ends (Cause l.edition root ·.2) (fun _ => True)
      (l.load (fuel + 1) deep pending (.sequence anchor tag place items)) := by
  have hreported (f : Fault) : f.2.IsReported → Cause l.edition root f.2 := .reported
  have hitems : ∀ n ∈ items, n.IsIn root := fun n hmem => (Node.IsIn.item hmem .self).trans hn
  unfold load
  extract_lets strict content within datum
  dsimp -zeta only
  extract_lets pending
  cases hmisfit : misfit? tag "sequence" place strict with
  | some e => exact .fault (.reported (isReported_of_misfit? hmisfit))
  | none =>
    dsimp -zeta only
    split
    · exact ends_content (.fault (.reported rfl))
    · have hmap (e : Error) (he : e = .scalarText ∨ e = .repeatedOrderedKey) :
          Cause l.edition root e := .orderedMap hn he
      refine ends_content
        (.bind ((ends_singleEntries _ _ hitems).mono hreported fun _ h => h) fun es hes => ?_)
      refine .bind (.foldlM (R := fun _ => True) (fun e he seen _ => ?_) trivial)
        fun _ _ => .ok trivial
      refine .bind (ih _ _ _ (hes e he).1) fun k _ => ?_
      extract_lets add
      have hadd (key : Key) : Ends (Cause l.edition root ·.2) (fun _ => True) (add key) := by
        dsimp only [add]
        split
        · exact .fault (hmap _ (.inr rfl))
        · exact .bind (ih _ _ _ (hes e he).2) fun _ _ => .ok trivial
      cases Key.ofLoaded k with
      | ok key => exact hadd key
      | error kind => exact .bind (.fault (hmap _ (.inl rfl))) fun key (_ : True) => hadd key
    · refine ends_content
        (.bind ((ends_singleEntries _ _ hitems).mono hreported fun _ h => h) fun es hes => ?_)
      refine .bind (.mapM (R := fun _ => True) fun e he => ?_) fun _ _ => .ok trivial
      exact .bind (ih _ _ _ (hes e he).1) fun _ _ => .bind (ih _ _ _ (hes e he).2) fun _ _ =>
        .ok trivial
    · refine ends_content (.bind (.firstFault fun x hx => ?_) fun values _ => .ok trivial)
      obtain ⟨n, hmem, rfl⟩ := List.mem_map.mp hx
      exact ih _ _ n (hitems n hmem)

include hanchored

theorem ends_load_mapping (deep : Bool) (pending : List (Nat × Bool)) {anchor : Option Nat}
    {tag : Tag} {place : Mark} {entries : List (Node × Node)}
    (hn : (Node.mapping anchor tag place entries).IsIn root) :
    Ends (Cause l.edition root ·.2) (fun _ => True)
      (l.load (fuel + 1) deep pending (.mapping anchor tag place entries)) := by
  have hreported (f : Fault) : f.2.IsReported → Cause l.edition root f.2 := .reported
  have hkey : ∀ e ∈ entries, e.1.IsIn root := fun e hmem => (Node.IsIn.key hmem .self).trans hn
  have hvalue : ∀ e ∈ entries, e.2.IsIn root :=
    fun e hmem => (Node.IsIn.value hmem .self).trans hn
  unfold load
  extract_lets strict content within datum
  dsimp -zeta only
  extract_lets pending
  cases hmisfit : misfit? tag "mapping" place strict with
  | some e => exact .fault (.reported (isReported_of_misfit? hmisfit))
  | none =>
    dsimp -zeta only
    split
    · exact ends_content (.fault (.reported rfl))
    · exact ends_content (.fault (.reported rfl))
    · exact ends_content (.fault (.reported rfl))
    · refine ends_content ?_
      extract_lets inside finish
      have hfinish (sources : List Node) (hsources : ∀ n ∈ sources, n.IsIn root) :
          Ends (Cause l.edition root ·.2) (fun _ => True) (finish sources) := by
        refine .bind (.mapM (R := fun _ => True) fun source hsource => ?_) fun merged _ => ?_
        · extract_lets known
          split
          · exact .ok trivial
          · refine .bind (ih _ _ _ (isIn_resolve hanchored (hsources source hsource)))
              fun v _ => ?_
            cases v <;> exact .ok trivial
        · -- The faults of later rounds are gathered, so that they have a cause is an invariant.
          refine .bind (.foldlM (R := fun own => ∀ x ∈ own.2,
            Ends (Cause l.edition root ·.2) (fun _ => True) x) (fun e he own hown => ?_) ?_)
            fun own hown => .bind (.firstFault hown) fun _ _ => .ok trivial
          · have hentry := mem_of_splitMerges (.inr he)
            refine .bind (ih _ _ _ (hkey e hentry)) fun k _ => ?_
            extract_lets add
            have hadd (key : Key) : Ends (Cause l.edition root ·.2) (fun own => ∀ x ∈ own.2,
                Ends (Cause l.edition root ·.2) (fun _ => True) x) (add key) := by
              have hload := ih inside pending e.2 (hvalue e hentry)
              dsimp only [add]
              cases hv : l.load fuel inside pending e.2 with
              | ok value =>
                dsimp only
                split
                · exact .ok hown
                · exact .bind ((ends_addEntry ..).mono hreported fun _ h => h) fun _ _ => .ok hown
              | error f =>
                rw [hv] at hload
                obtain ⟨round, e⟩ := f
                cases round with
                | zero => exact .fault (hload.of_error rfl)
                | succ round =>
                  refine .ok fun x hx => ?_
                  rcases List.mem_append.mp hx with hx | hx
                  · exact hown x hx
                  · cases List.mem_singleton.mp hx
                    exact .error (hload.of_error rfl)
            cases Key.ofLoaded k with
            | ok key => exact hadd key
            | error kind => exact .bind (.fault (.reported rfl)) fun key (_ : True) => hadd key
          · simp
      split
      · exact hfinish [] (by simp)
      · next hmerge =>
        have hin := hvalue _ (mem_of_splitMerges (.inl (hmerge ▸ List.mem_cons_self)))
        exact .bind ((ends_mergeSources hanchored _ hin).mono hreported fun _ h => h) hfinish
      · next hmerge =>
        have hin := hvalue _ (mem_of_splitMerges (.inl (hmerge ▸ List.mem_cons_self)))
        exact .bind ((ends_mergeSources hanchored _ hin).mono hreported fun _ h => h) fun _ _ =>
          .bind (.fault (.reported rfl)) hfinish

end Inner

/-- A fault of a node of the document has one of the causes. -/
theorem ends_load (hanchored : l.anchored = root.anchored) (fuel : Nat) :
    ∀ deep pending n, n.IsIn root →
      Ends (Cause l.edition root ·.2) (fun _ => True) (l.load fuel deep pending n) := by
  induction fuel with
  | zero => exact fun _ _ _ _ => .fault (.reported rfl)
  | succ fuel ih =>
    intro deep pending n hn
    cases n with
    | aliasOf target place => exact ends_load_aliasOf hanchored deep pending hn
    | scalar anchor tag text place => exact ends_load_scalar fuel deep pending hn
    | sequence anchor tag place items => exact ends_load_sequence ih deep pending hn
    | mapping anchor tag place entries => exact ends_load_mapping hanchored ih deep pending hn

end Loading

end Yaml

end BusinessModel
