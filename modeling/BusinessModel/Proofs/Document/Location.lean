import BusinessModel.Proofs.Document.Building
import BusinessModel.Proofs.Document.Distinct

/-!
Positions in documents. All positions of a document are kept in one table by their pointers, and yet
each entry and item has its own: a pointer tells the way to what it points to. Only an entry of the
root with the empty key has the pointer that is also an alias of the root.
-/

namespace BusinessModel

open Pointer Yaml

namespace Layout

/-- The position that is recorded for a place. One behind the last line gives way to the other. -/
def position? (l : Layout) (place fallback : Option Mark) : Option Span :=
  (place.bind fun m => if m.line + 1 > l.lines then fallback else some m).map l.span

/-- The position that is recorded for the value of an entry. -/
def entryPosition? (l : Layout) (key : Key) (places : Option (Mark × Mark)) (v : Loaded) :
    Option Span :=
  l.position? (places.map fun p => valuePlace key p v) (places.map (·.1))

/-- The position that is recorded for an item. -/
def itemPosition? (l : Layout) (place : Option Mark) : Option Span := l.position? place none

/-- The position that is recorded for the part of a loaded value at a place, the way to the part
passing the segments. The value itself has the position `own`. -/
inductive Marks (l : Layout) :
    Option Span → Loaded → List Nat → List Segment → Option Span → Prop where
  | here (own : Option Span) (v : Loaded) : Marks l own v [] [] own
  | item {own span : Option Span} {v w : Loaded} {anchor : Option Nat} {m place : Option Mark}
      {items : List (Option Mark × Loaded)} {i : Nat} {inner : List Nat} {segments : List Segment}
      (hv : l.resolve v = .sequence anchor m items) (hitem : items[i]? = some (place, w))
      (tail : Marks l (l.itemPosition? place) w inner segments span) :
      Marks l own v (i :: inner) (.index i :: segments) span
  | entry {own span : Option Span} {v w : Loaded} {anchor : Option Nat} {m : Option Mark}
      {entries : List (Key × Option (Mark × Mark) × Loaded)} {key : Key}
      {places : Option (Mark × Mark)} {i : Nat} {inner : List Nat} {segments : List Segment}
      (hv : l.resolve v = .mapping anchor m entries) (hentry : entries[i]? = some (key, places, w))
      (tail : Marks l (l.entryPosition? key places w) w inner segments span) :
      Marks l own v (i :: inner) (.key key.label :: segments) span

variable {l : Layout}

/-- Each place has one position. -/
theorem Marks.eq_of_place {own span span' : Option Span} {v : Loaded} {place : List Nat}
    {segments segments' : List Segment} (h : l.Marks own v place segments span)
    (h' : l.Marks own v place segments' span') : span = span' := by
  induction h generalizing segments' span' with
  | here own v =>
    cases h' with
    | here _ _ => rfl
  | item hv hitem _ ih =>
    cases h' with
    | item hv' hitem' tail' =>
      cases hv.symm.trans hv'
      cases hitem.symm.trans hitem'
      exact ih tail'
    | entry hv' _ _ => cases hv.symm.trans hv'
  | entry hv hentry _ ih =>
    cases h' with
    | entry hv' hentry' tail' =>
      cases hv.symm.trans hv'
      cases hentry.symm.trans hentry'
      exact ih tail'
    | item hv' _ _ => cases hv.symm.trans hv'

/-- Below a value, positions do not depend on its own. -/
theorem Marks.own_irrelevant {own span : Option Span} {v : Loaded} {place : List Nat}
    {segments : List Segment} (h : l.Marks own v place segments span) (own' : Option Span) :
    place = [] ∧ segments = [] ∧ span = own ∨
      segments ≠ [] ∧ l.Marks own' v place segments span := by
  cases h with
  | here _ _ => exact .inl ⟨rfl, rfl, rfl⟩
  | item hv hitem tail => exact .inr ⟨List.cons_ne_nil _ _, .item hv hitem tail⟩
  | entry hv hentry tail => exact .inr ⟨List.cons_ne_nil _ _, .entry hv hentry tail⟩

/-! ### The tree of a value and its parts -/

/-- Related lists have related members at each index. -/
theorem exists_getElem?_of_forall₂ {α β : Type} {R : α → β → Prop} {xs : List α} {ys : List β}
    (h : List.Forall₂ R xs ys) {i : Nat} {x : α} (hx : xs[i]? = some x) :
    ∃ y, ys[i]? = some y ∧ R x y := by
  induction h generalizing i with
  | nil => simp at hx
  | cons hhead _ ih =>
    cases i with
    | zero =>
      cases hx
      exact ⟨_, rfl, hhead⟩
    | succ i => exact ih hx

/-- The content has the parts of the value, each at the same place. -/
def Matches (l : Layout) (v : Loaded) (c : Content) : Prop :=
  ∀ own place segments,
    (∃ span, l.Marks own v place segments span) ↔ ∃ found, c.Leads place segments found

theorem matches_of_no_parts {v : Loaded} {c : Content}
    (hitems : ∀ anchor m items, l.resolve v ≠ .sequence anchor m items)
    (hentries : ∀ anchor m entries, l.resolve v ≠ .mapping anchor m entries)
    (hc : ∀ place segments found, c.Leads place segments found → place = [] ∧ segments = []) :
    l.Matches v c := by
  intro own place segments
  constructor
  · rintro ⟨span, h⟩
    cases h with
    | here _ _ => exact ⟨_, .here _⟩
    | item hv _ _ => exact absurd hv (hitems _ _ _)
    | entry hv _ _ => exact absurd hv (hentries _ _ _)
  · rintro ⟨found, h⟩
    obtain ⟨rfl, rfl⟩ := hc _ _ _ h
    exact ⟨_, .here _ _⟩

theorem matches_sequence {v : Loaded} {anchor : Option Nat} {m : Option Mark}
    {items : List (Option Mark × Loaded)} {cs : List Content}
    (hv : l.resolve v = .sequence anchor m items)
    (hitems : List.Forall₂ (fun x c => l.Matches x.2 c) items cs) :
    l.Matches v (.sequence cs) := by
  intro own place segments
  constructor
  · rintro ⟨span, h⟩
    cases h with
    | here _ _ => exact ⟨_, .here _⟩
    | item hv' hitem tail =>
      cases hv.symm.trans hv'
      obtain ⟨c, hc, hmatches⟩ := exists_getElem?_of_forall₂ hitems hitem
      obtain ⟨found, hfound⟩ := (hmatches _ _ _).mp ⟨_, tail⟩
      exact ⟨found, .item hc hfound⟩
    | entry hv' _ _ => cases hv.symm.trans hv'
  · rintro ⟨found, h⟩
    cases h with
    | here _ => exact ⟨_, .here _ _⟩
    | item hc tail =>
      obtain ⟨⟨m', w⟩, hitem, hmatches⟩ := exists_getElem?_of_forall₂ hitems.flip hc
      obtain ⟨span, hspan⟩ := (hmatches (l.itemPosition? m') _ _).mpr ⟨_, tail⟩
      exact ⟨span, .item hv hitem hspan⟩

theorem matches_mapping {v : Loaded} {anchor : Option Nat} {m : Option Mark}
    {entries : List (Key × Option (Mark × Mark) × Loaded)} {cs : List (String × Content)}
    (hv : l.resolve v = .mapping anchor m entries)
    (hentries : List.Forall₂ (fun e c => e.1.label = c.1 ∧ l.Matches e.2.2 c.2) entries cs) :
    l.Matches v (.mapping cs) := by
  intro own place segments
  constructor
  · rintro ⟨span, h⟩
    cases h with
    | here _ _ => exact ⟨_, .here _⟩
    | item hv' _ _ => cases hv.symm.trans hv'
    | entry hv' hentry tail =>
      cases hv.symm.trans hv'
      obtain ⟨⟨name, c⟩, hc, hname, hmatches⟩ := exists_getElem?_of_forall₂ hentries hentry
      obtain ⟨found, hfound⟩ := (hmatches _ _ _).mp ⟨_, tail⟩
      cases hname
      exact ⟨found, .entry hc hfound⟩
  · rintro ⟨found, h⟩
    cases h with
    | here _ => exact ⟨_, .here _ _⟩
    | entry hc tail =>
      obtain ⟨⟨key, places, w⟩, hentry, hname, hmatches⟩ :=
        exists_getElem?_of_forall₂ hentries.flip hc
      obtain ⟨span, hspan⟩ := (hmatches (l.entryPosition? key places w) _ _).mpr ⟨_, tail⟩
      cases hname
      exact ⟨span, .entry hv hentry hspan⟩

/-! ### What building records -/

/-- Between two states of building, exactly the noted positions are recorded, in whatever order. -/
def Adds (s s' : Building) (noted : String → Span → Prop) : Prop :=
  ∃ added, s'.sourceMap.history = added ++ s.sourceMap.history ∧
    ∀ path span, (path, span) ∈ added ↔ noted path span

theorem Adds.nothing {noted : String → Span → Prop} (s : Building)
    (h : ∀ path span, ¬ noted path span) : Adds s s noted :=
  ⟨[], rfl, fun path span => iff_of_false List.not_mem_nil (h path span)⟩

theorem Adds.trans {s s' s'' : Building} {noted noted' both : String → Span → Prop}
    (h : Adds s s' noted) (h' : Adds s' s'' noted')
    (hboth : ∀ path span, both path span ↔ noted path span ∨ noted' path span) :
    Adds s s'' both := by
  obtain ⟨added, hhistory, hadded⟩ := h
  obtain ⟨added', hhistory', hadded'⟩ := h'
  refine ⟨added' ++ added, by rw [hhistory', hhistory, List.append_assoc], fun path span => ?_⟩
  rw [List.mem_append, hadded, hadded', hboth, or_comm]

/-- Recording a position adds it, if there is one. -/
theorem run_record (l : Layout) (path : String) (place fallback : Option Mark) (s : Building) :
    ∃ s', (l.record path place fallback).run s = .ok ((), s') ∧
      Adds s s' fun path' span => path' = path ∧ l.position? place fallback = some span := by
  unfold record position?
  extract_lets place?
  have hplace : (place.bind fun m => if m.line + 1 > l.lines then fallback else some m) =
      place? := by
    cases place <;> rfl
  rw [hplace]
  cases place? with
  | none => exact ⟨s, rfl, .nothing s (by simp)⟩
  | some m =>
    refine ⟨_, rfl, [(path, l.span m)], rfl, fun path' span => ?_⟩
    simp [eq_comm]

/-- Building has made the content of the value, which stands at the end of the segments `base`, and
recorded its own position and those of its parts. -/
structure Places (l : Layout) (base : List Segment) (own : Option Span) (v : Loaded) (c : Content)
    (s s' : Building) : Prop where
  tree : l.Matches v c
  adds : Adds s s' fun path span => ∃ place segments,
    l.Marks own v place segments (some span) ∧ path = ofSegments (base ++ segments)

/-- The values that a step of building is applied to are placed, their own positions apart. -/
def PlacesParts (l : Layout) (convert : String → Loaded → Build Content) : Prop :=
  ∀ base v s c s', (convert (ofSegments base) v).run s = .ok (c, s') → l.Places base none v c s s'

variable {convert : String → Loaded → Build Content}

/-- A value is placed with the position recorded before it is built. -/
theorem Places.of_record {base : List Segment} {place fallback : Option Mark} {v : Loaded}
    {s s' s'' : Building} {c : Content}
    (hrecord : (l.record (ofSegments base) place fallback).run s = .ok ((), s'))
    (hparts : l.Places base none v c s' s'') :
    l.Places base (l.position? place fallback) v c s s'' := by
  obtain ⟨_, hrun, hadds⟩ := l.run_record (ofSegments base) place fallback s
  cases hrecord.symm.trans hrun
  refine ⟨hparts.tree, hadds.trans hparts.adds fun path span => ?_⟩
  constructor
  · rintro ⟨inner, segments, h, rfl⟩
    rcases h.own_irrelevant none with ⟨_, rfl, hspan⟩ | ⟨_, h⟩
    · exact .inl ⟨by rw [List.append_nil], hspan.symm⟩
    · exact .inr ⟨inner, segments, h, rfl⟩
  · rintro (⟨rfl, hspan⟩ | ⟨inner, segments, h, rfl⟩)
    · exact ⟨[], [], hspan ▸ .here _ _, by rw [List.append_nil]⟩
    · rcases h.own_irrelevant (l.position? place fallback) with ⟨_, _, hspan⟩ | ⟨_, h⟩
      · cases hspan
      · exact ⟨inner, segments, h, rfl⟩

/-- Building the items of a sequence places each of them. -/
theorem places_buildItems (hconvert : l.PlacesParts convert) (base : List Segment)
    (items : List (Option Mark × Loaded)) : ∀ (n : Nat) (seen : List Content) (s : Building)
      (cs : List Content) (s' : Building),
      (l.buildItems convert (ofSegments base) n seen items).run s = .ok (cs, s') →
      ∃ built, cs = seen.reverse ++ built ∧
        List.Forall₂ (fun x c => l.Matches x.2 c) items built ∧
        Adds s s' fun path span => ∃ (i : Nat) (x : Option Mark × Loaded) (inner : List Nat)
          (segments : List Segment), items[i]? = some x ∧
            l.Marks (l.itemPosition? x.1) x.2 inner segments (some span) ∧
            path = ofSegments (base ++ .index ↑(n + i) :: segments) := by
  induction items with
  | nil =>
    intro n seen s cs s' h
    cases h
    exact ⟨[], by rw [List.append_nil], .nil, .nothing s (by simp)⟩
  | cons x rest ih =>
    obtain ⟨place, v⟩ := x
    intro n seen s cs s' h
    rw [buildItems, join_ofSegments, StateT.run_bind] at h
    obtain ⟨⟨_, s₁⟩, hrecord, h⟩ := bind_eq_ok_iff.mp h
    rw [StateT.run_bind] at h
    obtain ⟨⟨c, s₂⟩, hbuilt, h⟩ := bind_eq_ok_iff.mp h
    have hplaces := (hconvert _ _ _ _ _ hbuilt).of_record hrecord
    obtain ⟨built, rfl, htrees, hadds⟩ := ih (n + 1) (c :: seen) s₂ cs s' h
    refine ⟨c :: built, by simp, .cons hplaces.tree htrees, hplaces.adds.trans hadds ?_⟩
    intro path span
    constructor
    · rintro ⟨i, x, inner, segments, hx, hmarks, rfl⟩
      cases i with
      | zero =>
        cases hx
        exact .inl ⟨inner, segments, hmarks, by simp⟩
      | succ i =>
        exact .inr ⟨i, x, inner, segments, hx, hmarks, by rw [Nat.add_assoc, Nat.add_comm 1]⟩
    · rintro (⟨inner, segments, hmarks, rfl⟩ | ⟨i, x, inner, segments, hx, hmarks, rfl⟩)
      · exact ⟨0, _, inner, segments, rfl, hmarks, by simp⟩
      · exact ⟨i + 1, x, inner, segments, hx, hmarks, by rw [Nat.add_assoc, Nat.add_comm 1]⟩

/-- Building the entries of a mapping places the value of each of them. -/
theorem places_buildEntries (hconvert : l.PlacesParts convert) (base : List Segment)
    (entries : List (Key × Option (Mark × Mark) × Loaded)) :
    ∀ (seen : List (String × Content)) (s : Building) (cs : List (String × Content))
      (s' : Building),
      (l.buildEntries convert (ofSegments base) seen entries).run s = .ok (cs, s') →
      ∃ built, cs = seen.reverse ++ built ∧
        List.Forall₂ (fun e c => e.1.label = c.1 ∧ l.Matches e.2.2 c.2) entries built ∧
        Adds s s' fun path span => ∃ (i : Nat) (e : Key × Option (Mark × Mark) × Loaded)
          (inner : List Nat) (segments : List Segment), entries[i]? = some e ∧
            l.Marks (l.entryPosition? e.1 e.2.1 e.2.2) e.2.2 inner segments (some span) ∧
            path = ofSegments (base ++ .key e.1.label :: segments) := by
  induction entries with
  | nil =>
    intro seen s cs s' h
    cases h
    exact ⟨[], by rw [List.append_nil], .nil, .nothing s (by simp)⟩
  | cons e rest ih =>
    obtain ⟨key, places, v⟩ := e
    intro seen s cs s' h
    rw [buildEntries, join_ofSegments, StateT.run_bind] at h
    obtain ⟨⟨_, s₁⟩, hrecord, h⟩ := bind_eq_ok_iff.mp h
    rw [StateT.run_bind] at h
    obtain ⟨⟨c, s₂⟩, hbuilt, h⟩ := bind_eq_ok_iff.mp h
    have hplaces := (hconvert _ _ _ _ _ hbuilt).of_record hrecord
    obtain ⟨built, rfl, htrees, hadds⟩ := ih ((key.label, c) :: seen) s₂ cs s' h
    refine ⟨(key.label, c) :: built, by simp, .cons ⟨rfl, hplaces.tree⟩ htrees,
      hplaces.adds.trans hadds ?_⟩
    intro path span
    constructor
    · rintro ⟨i, e, inner, segments, he, hmarks, rfl⟩
      cases i with
      | zero =>
        cases he
        exact .inl ⟨inner, segments, hmarks, by simp⟩
      | succ i => exact .inr ⟨i, e, inner, segments, he, hmarks, rfl⟩
    · rintro (⟨inner, segments, hmarks, rfl⟩ | ⟨i, e, inner, segments, he, hmarks, rfl⟩)
      · exact ⟨0, _, inner, segments, rfl, hmarks, by simp⟩
      · exact ⟨i + 1, e, inner, segments, he, hmarks, rfl⟩

/-- A value without parts is placed without recording anything. -/
theorem places_of_no_parts {base : List Segment} {v : Loaded} {c : Content} {s s' : Building}
    (hitems : ∀ anchor m items, l.resolve v ≠ .sequence anchor m items)
    (hentries : ∀ anchor m entries, l.resolve v ≠ .mapping anchor m entries)
    (hc : ∀ place segments found, c.Leads place segments found → place = [] ∧ segments = [])
    (hsame : s'.sourceMap = s.sourceMap) : l.Places base none v c s s' := by
  refine ⟨matches_of_no_parts hitems hentries hc, [], by rw [hsame]; rfl, fun path span => ?_⟩
  refine iff_of_false List.not_mem_nil ?_
  rintro ⟨place, segments, h, _⟩
  cases h with
  | item hv _ _ => exact hitems _ _ _ hv
  | entry hv _ _ => exact hentries _ _ _ hv

/-- There are no parts in a scalar. -/
theorem eq_nil_of_leads_scalar {x : Scalar} (place : List Nat) (segments : List Segment)
    (found : Content) (h : (Content.scalar x).Leads place segments found) :
    place = [] ∧ segments = [] := by
  cases h
  exact ⟨rfl, rfl⟩

/-- Building a value records exactly the positions of its parts. -/
theorem placesParts_build (l : Layout) (room : Nat) : l.PlacesParts (l.build room) := by
  induction room with
  | zero =>
    intro base v s c s' h
    rw [run_build] at h
    split at h <;> cases h
  | succ room ih =>
    intro base v s c s' h
    rw [run_build] at h
    split at h
    · cases h
    · dsimp only at h
      cases hv : l.resolve v with
      | scalar d =>
        rw [hv] at h
        cases h
        exact places_of_no_parts (by simp [hv]) (by simp [hv]) eq_nil_of_leads_scalar rfl
      | aliasOf n =>
        rw [hv] at h
        cases h
        exact places_of_no_parts (by simp [hv]) (by simp [hv]) eq_nil_of_leads_scalar rfl
      | sequence anchor m items =>
        rw [hv, buildParts, StateT.run_bind] at h
        obtain ⟨⟨cs, s₁⟩, hitems, h⟩ := bind_eq_ok_iff.mp h
        cases h
        obtain ⟨built, rfl, htrees, added, hhistory, hadded⟩ :=
          places_buildItems ih base items 0 [] _ cs s₁ hitems
        refine ⟨matches_sequence hv htrees, added, hhistory, fun path span => ?_⟩
        rw [hadded]
        constructor
        · rintro ⟨i, ⟨place, w⟩, inner, segments, hx, hmarks, rfl⟩
          exact ⟨i :: inner, .index i :: segments, .item hv hx hmarks, by rw [Nat.zero_add]⟩
        · rintro ⟨place, segments, hmarks, rfl⟩
          cases hmarks with
          | @item _ _ _ _ _ _ _ _ i _ _ hv' hx tail =>
            cases hv.symm.trans hv'
            exact ⟨i, _, _, _, hx, tail, by rw [Nat.zero_add]⟩
          | entry hv' _ _ => cases hv.symm.trans hv'
      | mapping anchor m entries =>
        rw [hv, buildParts, StateT.run_bind] at h
        obtain ⟨⟨cs, s₁⟩, hentries, h⟩ := bind_eq_ok_iff.mp h
        cases h
        obtain ⟨built, rfl, htrees, added, hhistory, hadded⟩ :=
          places_buildEntries ih base entries [] _ cs s₁ hentries
        refine ⟨matches_mapping hv htrees, added, hhistory, fun path span => ?_⟩
        rw [hadded]
        constructor
        · rintro ⟨i, ⟨key, places, w⟩, inner, segments, he, hmarks, rfl⟩
          exact ⟨i :: inner, .key key.label :: segments, .entry hv he hmarks, rfl⟩
        · rintro ⟨place, segments, hmarks, rfl⟩
          cases hmarks with
          | @entry _ _ _ _ _ _ _ key places i _ _ hv' he tail =>
            cases hv.symm.trans hv'
            exact ⟨i, _, _, _, he, tail, rfl⟩
          | item hv' _ _ => cases hv.symm.trans hv'

/-- The position of the root of a document. -/
def rootPosition (l : Layout) (v : Loaded) : Span := l.span (rootPlace v)

/-- Building a document records exactly the positions of the root and of its parts. -/
theorem places_buildRoot {v : Loaded} {c : Content} {s : Building}
    (h : (l.buildRoot v).run {} = .ok (c, s)) :
    l.Places [] (some (l.rootPosition v)) v c {} s := by
  have hroot : l.position? (some (rootPlace v)) (some (rootPlace v)) =
      some (l.rootPosition v) := by
    rw [position?, Option.bind_some, ite_self]
    rfl
  unfold buildRoot at h
  rw [StateT.run_bind] at h
  obtain ⟨⟨_, s₁⟩, hrecord, h⟩ := bind_eq_ok_iff.mp h
  have hrecord : (l.record (ofSegments []) (some (rootPlace v)) (some (rootPlace v))).run {} =
    .ok ((), s₁) := hrecord
  rw [← hroot]
  split at h
  · cases h
    refine .of_record hrecord (places_of_no_parts nofun nofun ?_ rfl)
    rintro place segments found hleads
    cases hleads with
    | here _ => exact ⟨rfl, rfl⟩
    | entry hentry _ => cases hentry
  · exact .of_record hrecord (l.placesParts_build _ [] _ _ _ _ h)

end Layout

/-- What is recorded from the root on are the positions of the parts, each under the pointer along
the way to its part. -/
theorem Layout.Places.mem_history_iff {l : Layout} {own : Option Span} {v : Loaded} {c : Content}
    {s : Building} (h : l.Places [] own v c {} s) (path : String) (span : Span) :
    (path, span) ∈ s.sourceMap.history ↔
      ∃ place segments, l.Marks own v place segments (some span) ∧ path = ofSegments segments := by
  obtain ⟨_, added, hhistory, hadded⟩ := h
  rw [hhistory.trans (List.append_nil added)]
  exact hadded path span

/-! ### Looking positions up -/

/-- What is recorded for a pointer is found, if there is nothing else recorded for it. -/
theorem SourceMap.find?_eq {m : SourceMap} {path : String} {x : Option Span}
    (h : ∀ span, (path, span) ∈ m.history ↔ x = some span) : m.find? path = x := by
  unfold find?
  cases hfound : m.history.lookup path with
  | none =>
    rw [List.lookup_eq_none_iff] at hfound
    cases x with
    | none => rfl
    | some span => simpa using hfound _ ((h span).mpr rfl)
  | some span =>
    obtain ⟨before, behind, hhistory, _⟩ := List.lookup_eq_some_iff.mp hfound
    exact ((h span).mp (by simp [hhistory])).symm

theorem intText_ne_empty (n : Int) : Text.intText n ≠ "" := by
  intro h
  have hlist := congrArg String.toList h
  unfold Text.intText at hlist
  split at hlist
  · simp [String.toList_append] at hlist
  · simp [Text.natText] at hlist

/-- A lone slash is the pointer of the entries of the root with the empty key. -/
theorem ofSegments_eq_slash_iff {segments : List Segment} :
    ofSegments segments = "/" ↔ segments = [.key ""] := by
  constructor
  · intro h
    have hpieces := congrArg pieces h
    rw [pieces_ofSegments, show pieces "/" = ["", ""] from by decide] at hpieces
    obtain ⟨s, hs, hescape⟩ := List.map_eq_singleton_iff.mp (List.cons.inj hpieces).2
    have htext := unescape_escape s.text
    rw [hescape, show unescape "" = "" from by decide] at htext
    rw [hs]
    cases s with
    | key name => rw [show name = "" from htext.symm]
    | index n => exact absurd htext.symm (intText_ne_empty n)
  · rintro rfl
    decide

/-- The text is read as the document, which comes of the loaded value. -/
theorem Document.exists_loads_of_parse {limits : Limits} {text : String} {filename : Option String}
    {r : ParseResult} {d : Document} (hparse : Document.parse limits text filename = .ok r)
    (hd : r.document = some d) : ∃ v s, Document.Loads limits text v ∧
      ((Layout.ofText limits text filename v).buildRoot v).run {} = .ok (d.content, s) ∧
      d.sourceMap = s.sourceMap := by
  rcases Document.origin_of_parse hparse with ⟨v, hloads, rfl⟩ | ⟨refusal, rfl⟩ | ⟨e, i, _, rfl⟩
  · cases hrun : ((Layout.ofText limits text filename v).buildRoot v).run {} with
    | error refusal =>
      rw [Document.ofLoaded_of_error hrun] at hd
      cases hd
    | ok built =>
      obtain ⟨c, s⟩ := built
      obtain ⟨_, d', hd', rfl, hmap⟩ := Document.ofLoaded_of_ok hrun
      cases hd.symm.trans hd'
      exact ⟨v, s, hloads, hrun, hmap⟩
  · cases hd
  · cases hd

/-- The document, which comes of the loaded value, has the positions of its parts. -/
structure Document.Locates (d : Document) (l : Layout) (v : Loaded) : Prop where
  /-- The parts of the document are the root, entries and items that positions are looked at for. -/
  parts_iff : ∀ place segments, (∃ span, l.Marks (some (l.rootPosition v)) v place segments span) ↔
    ∃ found, d.content.Leads place segments found
  /-- At the pointer of a part, the position recorded for that part is found. -/
  location?_eq : ∀ place segments span, l.Marks (some (l.rootPosition v)) v place segments span →
    segments ≠ [.key ""] → d.location? (ofSegments segments) = span
  /-- A lone slash stands for the root. -/
  location?_slash : d.location? "/" = some (l.rootPosition v)
  /-- Nowhere else, a position is found. -/
  location?_eq_none : ∀ path, path ≠ "/" →
    (∀ place segments found, d.content.Leads place segments found → path ≠ ofSegments segments) →
    d.location? path = none

/-- What is recorded while a document without repeated keys is built is found again, each position
under the pointer of its own part. -/
theorem Document.locates_of_places {d : Document} {l : Layout} {v : Loaded} {s : Building}
    (h : l.Places [] (some (l.rootPosition v)) v d.content {} s)
    (hdistinct : d.content.IsDistinct) (hmap : d.sourceMap = s.sourceMap) : d.Locates l v := by
  have htree := h.tree
  have hfind {place : List Nat} {segments : List Segment} {span : Option Span}
      (hmarks : l.Marks (some (l.rootPosition v)) v place segments span) :
      d.sourceMap.find? (ofSegments segments) = span := by
    apply SourceMap.find?_eq
    intro x
    rw [hmap, h.mem_history_iff]
    constructor
    · rintro ⟨place', segments', hmarks', hpath⟩
      obtain ⟨found, hleads⟩ := (htree _ _ _).mp ⟨_, hmarks⟩
      obtain ⟨found', hleads'⟩ := (htree _ _ _).mp ⟨_, hmarks'⟩
      obtain ⟨rfl, _, _⟩ := hleads.eq_of_ofSegments hleads' hdistinct hpath
      exact hmarks.eq_of_place hmarks'
    · rintro rfl
      exact ⟨place, segments, hmarks, rfl⟩
  constructor
  · exact fun place segments => htree _ _ _
  · intro place segments span hmarks hslash
    rw [Document.location?, SourceMap.get?, if_neg]
    · exact hfind hmarks
    · rw [beq_iff_eq, ofSegments_eq_slash_iff]
      exact hslash
  · exact hfind (.here _ _)
  · intro path hslash hother
    rw [Document.location?, SourceMap.get?, if_neg (by simpa using hslash)]
    apply SourceMap.find?_eq
    intro x
    rw [hmap, h.mem_history_iff]
    refine iff_of_false ?_ (by simp)
    rintro ⟨place, segments, hmarks, hpath⟩
    obtain ⟨found, hleads⟩ := (htree _ _ _).mp ⟨_, hmarks⟩
    exact hother place segments found hleads hpath

/-- In a document that is read from a text and repeats no key, each entry and item has the position
recorded for it under its pointer, whatever its keys; only an entry of the root with the empty key
has the pointer that stands for the root. No other text has a position. -/
theorem Document.locates_of_parse {limits : Limits} {text : String} {filename : Option String}
    {r : ParseResult} {d : Document} (hparse : Document.parse limits text filename = .ok r)
    (hd : r.document = some d) (hdistinct : d.content.IsDistinct) :
    ∃ v, Document.Loads limits text v ∧ d.Locates (.ofText limits text filename v) v := by
  obtain ⟨v, s, hloads, hrun, hmap⟩ := Document.exists_loads_of_parse hparse hd
  exact ⟨v, hloads, Document.locates_of_places (Layout.places_buildRoot hrun) hdistinct hmap⟩

/-- A mapping with a slash, a tilde and nothing in its keys. -/
def oddlyKeyedText : String := "a/b: [x, \x7b'~': y\x7d]\n'': 1\n"

theorem Document.locates_oddly_keyed : ∃ r d,
    Document.parse {} oddlyKeyedText none = .ok r ∧ r.document = some d ∧
      d.content.IsDistinct ∧ d.location? "/a~1b/1/~0" = some ⟨"<string>", 1, 16⟩ ∧
      ∃ v, Document.Loads {} oddlyKeyedText v ∧ d.Locates (.ofText {} oddlyKeyedText none v) v := by
  have htest : (Document.parse {} oddlyKeyedText none).toOption.any (fun r =>
      r.document.any fun d => d.content.isDistinct &&
        d.location? "/a~1b/1/~0" == some ⟨"<string>", 1, 16⟩) = true := by
    decide +kernel
  obtain ⟨r, hparse, htest⟩ := exists_of_any_toOption htest
  obtain ⟨d, hd, htest⟩ := (Option.any_eq_true _ _).mp htest
  obtain ⟨hdistinct, hlocation⟩ := Bool.and_eq_true_iff.mp htest
  have hdistinct := Content.isDistinct_of_test _ hdistinct
  exact ⟨r, d, hparse, hd, hdistinct, eq_of_beq hlocation,
    Document.locates_of_parse hparse hd hdistinct⟩

/-- The entry of a mapping that has one. -/
def soleRow? : Loaded → Option (Key × Option (Mark × Mark) × Loaded)
  | .mapping _ _ [e] => some e
  | _ => none

theorem eq_mapping_of_soleRow? {v : Loaded} {e : Key × Option (Mark × Mark) × Loaded}
    (h : soleRow? v = some e) : ∃ anchor place, v = .mapping anchor place [e] := by
  unfold soleRow? at h
  split at h
  · cases h
    exact ⟨_, _, rfl⟩
  · cases h

/-- A mapping whose only key is empty. -/
def emptyKeyText : String := "'': 1\n"

/-- At the pointer of an entry with the empty key, the position of the root is found. -/
theorem Document.location?_ne_of_empty_key : ∃ r d v span,
    Document.parse {} emptyKeyText none = .ok r ∧ r.document = some d ∧ d.content.IsDistinct ∧
      Document.Loads {} emptyKeyText v ∧
      (Layout.ofText {} emptyKeyText none v).Marks
        (some ((Layout.ofText {} emptyKeyText none v).rootPosition v)) v [0] [.key ""] (some span) ∧
      d.location? (ofSegments [.key ""]) ≠ some span := by
  have htest : (Document.parse {} emptyKeyText none).toOption.any (fun r =>
      r.document.any fun d => d.content.isDistinct &&
        d.location? (ofSegments [.key ""]) == some ⟨"<string>", 1, 1⟩) = true := by
    decide +kernel
  have hload : (Yaml.events emptyKeyText.toList).toOption.any (fun events =>
      !events.hasAnchor && (Yaml.load .lenient events).toOption.any fun v =>
        (soleRow? v).any fun e => e.1.label == "" &&
          (Layout.ofText {} emptyKeyText none v).entryPosition? e.1 e.2.1 e.2.2 ==
            some ⟨"<string>", 1, 5⟩) = true := by
    decide +kernel
  obtain ⟨r, hparse, htest⟩ := exists_of_any_toOption htest
  obtain ⟨d, hd, htest⟩ := (Option.any_eq_true _ _).mp htest
  obtain ⟨hdistinct, hlocation⟩ := Bool.and_eq_true_iff.mp htest
  obtain ⟨events, hevents, hload⟩ := exists_of_any_toOption hload
  obtain ⟨hanchor, hload⟩ := Bool.and_eq_true_iff.mp hload
  obtain ⟨v, hload, hentry⟩ := exists_of_any_toOption hload
  have hsize : (emptyKeyText.toList.length : Int) ≤ 5000000 := by decide
  have hloads : Document.Loads {} emptyKeyText v :=
    ⟨hsize, events, hevents, fun h => by simp [h.2] at hanchor, hload⟩
  refine ⟨r, d, v, ⟨"<string>", 1, 5⟩, hparse, hd, Content.isDistinct_of_test _ hdistinct, hloads,
    ?_, by simp [eq_of_beq hlocation]⟩
  obtain ⟨⟨key, places, w⟩, honly, hentry⟩ := (Option.any_eq_true _ _).mp hentry
  obtain ⟨anchor, place, rfl⟩ := eq_mapping_of_soleRow? honly
  obtain ⟨hkey, hposition⟩ := Bool.and_eq_true_iff.mp hentry
  rw [← eq_of_beq hposition, ← eq_of_beq hkey]
  exact .entry rfl rfl (.here _ _)

end BusinessModel
