import BusinessModel.Proofs.Document.Location
import BusinessModel.Schema.Finding

/-!
Pointers as addresses. The texts of the segments are read off a pointer, so that a pointer and the
way that it was made of tell the same; and whoever goes through a content and writes pointers on the
way, be it for the entries or for the positions recorded while the content was built, writes the same
pointer for the same entry.
-/

namespace BusinessModel

open Pointer Yaml

/-! ### The name of a property in a pointer -/

namespace Pointer

theorem isEmpty_escape (s : String) : (escape s).isEmpty = s.isEmpty := by
  rw [Bool.eq_iff_iff, String.isEmpty_iff, String.isEmpty_iff]
  constructor
  · intro h
    rw [← unescape_escape s, h]
    rfl
  · rintro rfl
    rfl

private theorem isDigits_eq_false {s : String} {c : Char} (hc : c ∈ s.toList)
    (hdigit : Text.isDigit c = false) : Text.isDigits s = false := by
  rw [Text.isDigits, Bool.and_eq_false_iff]
  right
  rw [Bool.eq_false_iff, Ne, List.all_eq_true]
  intro hall
  rw [hall c hc] at hdigit
  cases hdigit

/-- The writing of a segment consists of digits exactly if its text does. -/
theorem isDigits_escape (s : String) : Text.isDigits (escape s) = Text.isDigits s := by
  by_cases hplain : '~' ∉ s.toList ∧ '/' ∉ s.toList
  · rw [escape_eq_self (.inr hplain)]
  · have hchanged : ∃ c ∈ s.toList, Text.isDigit c = false ∧ '~' ∈ escapeChar c := by
      rw [not_and_or, not_not, not_not] at hplain
      rcases hplain with h | h
      · exact ⟨_, h, by decide, by decide⟩
      · exact ⟨_, h, by decide, by decide⟩
    obtain ⟨c, hc, hdigit, htilde⟩ := hchanged
    have hwritten : '~' ∈ (escape s).toList := by
      rw [escape, String.toList_ofList, List.mem_flatMap]
      exact ⟨c, hc, htilde⟩
    rw [isDigits_eq_false hc hdigit, isDigits_eq_false hwritten (by decide)]

end Pointer

/-- The property that a finding is about is the last text on the way to it that is no index. -/
theorem Finding.propertyName?_eq {f : Finding} {segments : List Segment}
    (h : f.path = ofSegments segments) : f.propertyName? =
      (segments.map Segment.text).reverse.find? fun t => !t.isEmpty && !Text.isDigits t := by
  have hnames : (fun s => !s.isEmpty && !Text.isDigits s) ∘ escape =
      fun t => !t.isEmpty && !Text.isDigits t := by
    funext t
    rw [Function.comp_apply, isEmpty_escape, isDigits_escape]
  have hpieces : (pieces f.path).reverse = (segments.map Segment.text).reverse.map escape ++ [""] := by
    rw [h, pieces_ofSegments, List.reverse_cons, ← List.map_reverse, ← List.map_reverse,
      List.map_map]
    rfl
  rw [propertyName?, hpieces, List.find?_append, List.find?_map, hnames]
  cases (segments.map Segment.text).reverse.find? fun t => !t.isEmpty && !Text.isDigits t with
  | none => rfl
  | some t => rw [Option.map_some, Option.some_or, Option.map_some, unescape_escape]

/-! ### The positions recorded for entries -/

namespace Layout

variable {l : Layout} {v : Loaded} {c : Content} {s : Building}

/-- The positions recorded while the content was built from the loaded value are those of its entries,
under the pointers that the walk through the content yields, besides those of the root and of items. -/
structure RecordsWalk (l : Layout) (v : Loaded) (c : Content) (s : Building) : Prop where
  /-- Under the pointer of an entry, its own position is recorded, if it has one, and no other. -/
  entry : ∀ e ∈ c.walk "", ∃ place above, c.Leads place (above ++ [.key e.key]) e.value ∧
    (∃ span, l.Marks (some (l.rootPosition v)) v place (above ++ [.key e.key]) span) ∧
      ∀ span, (e.path, span) ∈ s.sourceMap.history ↔
        l.Marks (some (l.rootPosition v)) v place (above ++ [.key e.key]) (some span)
  /-- Whatever else is recorded stands under the pointer of the root or of an item. -/
  other : ∀ path span, (path, span) ∈ s.sourceMap.history →
    path ∈ (c.walk "").map (·.path) ∨ path = "" ∨ ∃ place above n found,
      c.Leads place (above ++ [.index n]) found ∧ path = ofSegments (above ++ [.index n])

theorem recordsWalk_of_buildRoot (hrun : (l.buildRoot v).run {} = .ok (c, s))
    (hdistinct : c.IsDistinct) : l.RecordsWalk v c s := by
  have hplaces := places_buildRoot hrun
  have htree := hplaces.tree
  have hwalk := c.walk_enumerates []
  constructor
  · intro e he
    obtain ⟨place, above, hleads, hpath⟩ := (hwalk.mem_iff e).mp he
    refine ⟨place, above, hleads, (htree _ _ _).mpr ⟨_, hleads⟩, fun span => ?_⟩
    rw [hplaces.mem_history_iff]
    constructor
    · rintro ⟨place', segments, hmarks, heq⟩
      obtain ⟨found, hleads'⟩ := (htree _ _ _).mp ⟨_, hmarks⟩
      obtain ⟨rfl, rfl, _⟩ := hleads.eq_of_ofSegments hleads' hdistinct (hpath.symm.trans heq)
      exact hmarks
    · exact fun hmarks => ⟨place, _, hmarks, hpath⟩
  · intro path span hmem
    obtain ⟨place, segments, hmarks, rfl⟩ := (hplaces.mem_history_iff path span).mp hmem
    obtain ⟨found, hleads⟩ := (htree _ _ _).mp ⟨_, hmarks⟩
    rcases List.eq_nil_or_concat segments with rfl | ⟨above, step, rfl⟩
    · exact .inr (.inl rfl)
    · rw [List.concat_eq_append] at hleads ⊢
      cases step with
      | index n => exact .inr (.inr ⟨place, above, n, found, hleads, rfl⟩)
      | key name =>
        have he : (⟨name, ofSegments (above ++ [.key name]), found⟩ : Entry) ∈ c.walk "" :=
          (hwalk.mem_iff _).mpr ⟨place, above, hleads, rfl⟩
        exact .inl (List.mem_map.mpr ⟨_, he, rfl⟩)

end Layout

/-- A pointer made segment by segment is the one along all of them; behind the empty piece before its
first slash, the texts of the segments are read off it, as are its last segment and the property that
it names, so that pointers are equal exactly if their segments have the same texts. In a content that
repeats no key, the walk yields pointers that are all different, and the positions of the entries are
recorded under the same pointers. -/
theorem pointers_tell_paths :
    (∀ segments : List Segment,
      segments.foldl join "" = ofSegments segments ∧
      (pieces (ofSegments segments)).head? = some "" ∧
      (pieces (ofSegments segments)).tail.map unescape = segments.map Segment.text ∧
      last? (ofSegments segments) = (segments.map Segment.text).getLast? ∧
      ∀ f : Finding, f.path = ofSegments segments → f.propertyName? =
        (segments.map Segment.text).reverse.find? fun t => !t.isEmpty && !Text.isDigits t) ∧
    (∀ segments segments' : List Segment, ofSegments segments = ofSegments segments' ↔
      segments.map Segment.text = segments'.map Segment.text) ∧
    ∀ c : Content, c.IsDistinct → ((c.walk "").map (·.path)).Nodup ∧
      ∀ (l : Layout) (v : Loaded) (s : Building), (l.buildRoot v).run {} = .ok (c, s) →
        l.RecordsWalk v c s := by
  refine ⟨fun segments => ⟨foldl_join [] segments, ?_, texts_ofSegments segments,
    last?_ofSegments segments, fun f => Finding.propertyName?_eq⟩,
    fun segments segments' => ofSegments_eq_iff, fun c hdistinct => ⟨hdistinct.nodup_walk, ?_⟩⟩
  · rw [pieces_ofSegments, List.head?_cons]
  · exact fun l v s hrun => Layout.recordsWalk_of_buildRoot hrun hdistinct

theorem pointers_tell_odd_keys : ∃ (l : Layout) (v : Loaded) (c : Content) (s : Building)
    (f : Finding), (l.buildRoot v).run {} = .ok (c, s) ∧ c.IsDistinct ∧
      f.path = ofSegments [.key "a/b", .index 0] ∧ f.propertyName? = some "a/b" ∧
      (c.walk "").map (·.path) = ["/a~1b", "/a~1b/1/~0", "/"] ∧ ((c.walk "").map (·.path)).Nodup ∧
      l.RecordsWalk v c s := by
  have htest : (Document.parse {} oddlyKeyedText none).toOption.any (fun r =>
      r.document.any fun d => d.content.isDistinct &&
        (d.content.walk "").map (·.path) == ["/a~1b", "/a~1b/1/~0", "/"]) = true := by
    decide +kernel
  obtain ⟨r, hparse, htest⟩ := exists_of_any_toOption htest
  obtain ⟨d, hd, htest⟩ := (Option.any_eq_true _ _).mp htest
  obtain ⟨hdistinct, hpaths⟩ := Bool.and_eq_true_iff.mp htest
  have hdistinct := Content.isDistinct_of_test _ hdistinct
  obtain ⟨v, s, _, hrun, _⟩ := Document.exists_loads_of_parse hparse hd
  have hpath : ({ keyword := "type", path := "/a~1b/0" } : Finding).path =
      ofSegments [.key "a/b", .index 0] := by
    decide
  obtain ⟨hsegments, _, hcontent⟩ := pointers_tell_paths
  obtain ⟨hnodup, hrecords⟩ := hcontent d.content hdistinct
  refine ⟨_, v, d.content, s, _, hrun, hdistinct, hpath,
    ((hsegments _).2.2.2.2 _ hpath).trans (by decide +kernel), eq_of_beq hpaths, hnodup,
    hrecords _ v s hrun⟩

end BusinessModel
