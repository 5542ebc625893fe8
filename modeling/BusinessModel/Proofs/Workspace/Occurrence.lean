import BusinessModel.Proofs.Entry
import BusinessModel.Workspace.References

/-!
What stands in a list of documents: entries of mappings, the definitions that their keys make, and
the references that their values hold. Each of these has a place, and the order of the places is
that of the documents, then preorder in a document, then the order of the items of a sequence.
-/

namespace BusinessModel.Workspace

open Schema

/-- An entry of one of several documents. Its place is the number of the document followed by the
place in its content; `above` are the segments on the way to the mapping that holds the entry. -/
inductive EntryAt (documents : List Document) :
    List Nat → Document → List Segment → Entry → Prop where
  | intro {i : Nat} {place : List Nat} {d : Document} {above : List Segment} {e : Entry}
      (hdocument : documents[i]? = some d)
      (hleads : d.content.Leads place (above ++ [.key e.key]) e.value)
      (hpath : e.path = Pointer.ofSegments (above ++ [.key e.key])) :
      EntryAt documents (i :: place) d above e

theorem EntryAt.path_eq {documents : List Document} {place : List Nat} {d : Document}
    {above : List Segment} {e : Entry} (h : EntryAt documents place d above e) :
    e.path = Pointer.ofSegments (above ++ [.key e.key]) := by
  cases h with
  | intro _ _ hpath => exact hpath

/-- A key on the way to an entry is that of an entry. -/
theorem EntryAt.exists_enclosing {documents : List Document} {place : List Nat} {d : Document}
    {outer inner : List Segment} {key : String} {e : Entry}
    (h : EntryAt documents place d (outer ++ .key key :: inner) e) :
    ∃ place' e', EntryAt documents place' d outer e' ∧ e'.key = key := by
  cases h with
  | @intro i _ _ _ _ hdocument hleads _ =>
    rw [List.append_cons outer, List.append_assoc] at hleads
    obtain ⟨place', value, hleads'⟩ := hleads.exists_of_append
    exact ⟨i :: place', ⟨key, Pointer.ofSegments (outer ++ [.key key]), value⟩,
      .intro hdocument hleads' rfl, rfl⟩

/-- The entries of several documents, each with its document. -/
def allEntries (documents : List Document) : List (Document × Entry) :=
  documents.flatMap fun d => d.entries.map (d, ·)

theorem allEntries_enumerates (documents : List Document) :
    Enumerates (fun place (p : Document × Entry) => ∃ above, EntryAt documents place p.1 above p.2)
      (allEntries documents) := by
  have hwalk (d : Document) : Enumerates (d.content.EntryUnder []) d.entries := by
    have h := Content.walk_enumerates [] d.content
    rwa [Pointer.ofSegments_nil] at h
  refine (Enumerates.flatMap_inParts (fun d => (hwalk d).map (d, ·)) 0 documents).congr ?_
  rintro place ⟨d, e⟩
  constructor
  · rintro ⟨i, inner, rfl, d', hdocument, e', ⟨above, hleads, hpath⟩, heq⟩
    obtain ⟨rfl, rfl⟩ := Prod.mk.inj heq
    rw [Nat.zero_add]
    exact ⟨above, .intro hdocument hleads hpath⟩
  · rintro ⟨above, hat⟩
    cases hat with
    | @intro i inner _ _ _ hdocument hleads hpath =>
      exact ⟨i, inner, by rw [Nat.zero_add], d, hdocument, e, ⟨above, hleads, hpath⟩, rfl⟩

/-! ### Definitions -/

/-- The definition that an entry makes whose key is a valid identifier. -/
def DefinitionAt (ids : IdScheme) (documents : List Document) (place : List Nat)
    (x : Definition) : Prop :=
  ∃ d above e, EntryAt documents place d above e ∧ ids.isValid e.key = true ∧
    x = { id := e.key, letters := (ids.letters? e.key).getD ""
          elementType := (ids.kinds.lookup ((ids.letters? e.key).getD "")).getD "element"
          filepath := d.filepath, path := e.path, span := d.location? e.path
          documentType := d.type }

theorem definitions_enumerates (ids : IdScheme) (documents : List Document) :
    Enumerates (DefinitionAt ids documents) (documents.flatMap (Document.definitions ids)) := by
  have hentries : documents.flatMap (Document.definitions ids) =
      ((allEntries documents).filter fun p => ids.isValid p.2.key).map fun p =>
        p.1.definition ids p.2 := by
    change documents.flatMap (fun d => d.definitions ids) = _
    simp [allEntries, Document.definitions, List.filter_flatMap, List.map_flatMap,
      List.filter_map, Function.comp_def]
  rw [hentries]
  refine (((allEntries_enumerates documents).filter _).map _).congr fun place x => ?_
  constructor
  · rintro ⟨⟨d, e⟩, ⟨⟨above, hat⟩, hvalid⟩, rfl⟩
    exact ⟨d, above, e, hat, hvalid, rfl⟩
  · rintro ⟨d, above, e, hat, hvalid, rfl⟩
    exact ⟨(d, e), ⟨⟨above, hat⟩, hvalid⟩, rfl⟩

/-! ### References -/

/-- A text that an entry holds, with the pointer to it: its value, or an item of its value. The
number is that of the item. -/
inductive TextAt (e : Entry) : Nat → String → String → Prop where
  | scalar {path text : String} (hvalue : e.value = .scalar (.str text)) (hpath : path = e.path) :
      TextAt e 0 path text
  | item {items : List Content} {i : Nat} {path text : String} (hvalue : e.value = .sequence items)
      (hitem : items[i]? = some (.scalar (.str text)))
      (hpath : path = Pointer.join e.path (.index i)) : TextAt e i path text

theorem text?_eq_some_iff {c : Content} {text : String} :
    c.text? = some text ↔ c = .scalar (.str text) := by
  unfold Content.text?
  split <;> simp_all

theorem texts_enumerates (e : Entry) : Enumerates (fun i t => TextAt e i t.1 t.2) e.texts := by
  obtain ⟨key, path, value⟩ := e
  cases value with
  | scalar s =>
    cases s with
    | str s =>
      refine (Enumerates.singleton 0 (path, s)).congr ?_
      rintro i ⟨path', text⟩
      constructor
      · rintro ⟨rfl, heq⟩
        cases heq
        exact .scalar rfl rfl
      · rintro (⟨hvalue, rfl⟩ | ⟨hvalue, _⟩) <;> cases hvalue
        exact ⟨rfl, rfl⟩
    | _ =>
      refine .of_forall_not ?_
      rintro i ⟨path', text⟩ (⟨hvalue, _⟩ | ⟨hvalue, _⟩) <;> cases hvalue
  | sequence items =>
    refine ((zipIdx_enumerates items).filterMap _).congr ?_
    rintro i ⟨path', text⟩
    constructor
    · rintro ⟨⟨c, j⟩, ⟨rfl, hitem⟩, htext⟩
      obtain ⟨text', htext', heq⟩ := Option.map_eq_some_iff.mp htext
      cases heq
      rw [text?_eq_some_iff] at htext'
      subst htext'
      exact .item rfl hitem rfl
    · rintro (⟨hvalue, _⟩ | ⟨hvalue, hitem, rfl⟩) <;> cases hvalue
      exact ⟨(_, i), ⟨rfl, hitem⟩, rfl⟩
  | mapping entries =>
    refine .of_forall_not ?_
    rintro i ⟨path', text⟩ (⟨hvalue, _⟩ | ⟨hvalue, _⟩) <;> cases hvalue

/-- Where a text stands in documents: at an entry, and there at an item if the value of the entry is
a sequence. -/
structure Site where
  entry : List Nat
  item : Nat
deriving DecidableEq, Repr

/-- Sites are ordered by their entries, and at one entry by the items. -/
instance : LT Site := ⟨fun a b => a.entry < b.entry ∨ a.entry = b.entry ∧ a.item < b.item⟩

/-- What stands at the items of what stands at entries is enumerated by sites. -/
theorem flatMap_site {α β : Type} {R : List Nat → α → Prop} {S : α → Nat → β → Prop}
    {xs : List α} {f : α → List β} (hxs : Enumerates R xs) (hf : ∀ a, Enumerates (S a) (f a)) :
    Enumerates (fun (site : Site) b => ∃ a, R site.entry a ∧ S a site.item b) (xs.flatMap f) := by
  obtain ⟨found, hsorted, hmem, rfl⟩ := hxs
  choose inner hinnerSorted hinnerMem hinner using hf
  refine ⟨found.flatMap fun p => (inner p.2).map fun q => (⟨p.1, q.1⟩, q.2), ?_, ?_, ?_⟩
  · refine List.pairwise_flatMap.mpr ⟨fun p _ => ?_, hsorted.imp fun {p p'} hlt => ?_⟩
    · exact List.pairwise_map.mpr ((hinnerSorted p.2).imp fun hlt => Or.inr ⟨rfl, hlt⟩)
    · intro x hx y hy
      obtain ⟨q, _, rfl⟩ := List.mem_map.mp hx
      obtain ⟨q', _, rfl⟩ := List.mem_map.mp hy
      exact Or.inl hlt
  · rintro ⟨entry, item⟩ b
    rw [List.mem_flatMap]
    constructor
    · rintro ⟨⟨place, a⟩, hplace, hb⟩
      obtain ⟨⟨i, b'⟩, hi, heq⟩ := List.mem_map.mp hb
      cases heq
      exact ⟨a, (hmem place a).mp hplace, (hinnerMem a i b').mp hi⟩
    · rintro ⟨a, hR, hS⟩
      refine ⟨(entry, a), (hmem entry a).mpr hR, List.mem_map.mpr ⟨(item, b), ?_, rfl⟩⟩
      exact (hinnerMem a item b).mpr hS
  · simp [List.map_flatMap, List.flatMap_map, Function.comp_def, hinner]

/-- The reference that a text makes which is a valid identifier, in an entry whose key is that of a
reference. -/
def ReferenceAt (m : Metadata) (documents : List Document) (site : Site) (r : Reference) : Prop :=
  ∃ d above e path text, EntryAt documents site.entry d above e ∧
    m.isReferenceField e.key = true ∧ TextAt e site.item path text ∧ m.ids.isValid text = true ∧
    r = { id := text, filepath := d.filepath, field := e.key, path, span := d.location? path
          owner := Document.owner? m.ids e.path }

theorem references_enumerates (m : Metadata) (documents : List Document) :
    Enumerates (ReferenceAt m documents) (documents.flatMap (Document.references m)) := by
  have hentries : documents.flatMap (Document.references m) =
      ((allEntries documents).filter fun p => m.isReferenceField p.2.key).flatMap fun p =>
        p.1.referencesIn m p.2 := by
    change documents.flatMap (fun d => d.references m) = _
    simp [allEntries, Document.references, List.filter_flatMap, List.flatMap_assoc,
      List.filter_map, List.flatMap_map, Function.comp_def]
  rw [hentries]
  refine (flatMap_site ((allEntries_enumerates documents).filter _)
    fun p => ((texts_enumerates p.2).filter _).map _).congr fun site r => ?_
  constructor
  · rintro ⟨⟨d, e⟩, ⟨⟨above, hat⟩, hfield⟩, ⟨path, text⟩, ⟨htext, hvalid⟩, rfl⟩
    exact ⟨d, above, e, path, text, hat, hfield, htext, hvalid, rfl⟩
  · rintro ⟨d, above, e, path, text, hat, hfield, htext, hvalid, rfl⟩
    exact ⟨(d, e), ⟨⟨above, hat⟩, hfield⟩, (path, text), ⟨htext, hvalid⟩, rfl⟩

end BusinessModel.Workspace
