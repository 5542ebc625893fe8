import BusinessModel.Proofs.Document.Exact
import BusinessModel.Proofs.Yaml.Event
import BusinessModel.Proofs.Yaml.Readable
import Mathlib.Data.List.TakeWhile

/-!
Documents that are written and read again. What is written for a tree is read as the tree, as long as
its texts are kept: where a line is folded, a space beside another one is lost, and a next line between
apostrophes is read as a space.
-/

namespace BusinessModel

open Yaml

/-! ### Depth -/

namespace Yaml.Placed

mutual

/-- What is loaded lies as deep as the values of the content. -/
theorem depths_loaded : ∀ p : Placed, p.content.IsDistinct → ∀ depth : Nat,
    p.loaded.depths depth = p.content.toValue.depths depth
  | .scalar _ _, _, _ => rfl
  | .sequence _ ps, .sequence hitems, depth => by
    rw [loaded, Loaded.depths, content, Content.toValue, Value.depths, Content.itemValues_eq,
      depths_loadedItems ps hitems]
  | .mapping _ ps, .mapping hkeys hvalues, depth => by
    rw [loaded, Loaded.depths, content, Content.toValue_mapping hkeys, Value.depths,
      depths_loadedEntries ps hvalues]

private theorem depths_loadedItems : ∀ ps : List Placed,
    (∀ c ∈ contentOfItems ps, c.IsDistinct) → ∀ depth : Nat,
      Loaded.depthsOfItems depth (loadedItems ps) =
        Value.depthsOfItems depth ((contentOfItems ps).map Content.toValue)
  | [], _, _ => rfl
  | p :: ps, h, depth => by
    obtain ⟨hfirst, hmore⟩ := List.forall_mem_cons.mp h
    rw [loadedItems, Loaded.depthsOfItems, contentOfItems, List.map_cons, Value.depthsOfItems,
      depths_loaded p hfirst, depths_loadedItems ps hmore]

private theorem depths_loadedEntries : ∀ ps : List (String × Mark × Placed),
    (∀ e ∈ contentOfEntries ps, e.2.IsDistinct) → ∀ depth : Nat,
      Loaded.depthsOfEntries depth (loadedEntries ps) = Value.depthsOfEntries depth
        ((contentOfEntries ps).map fun e => (.str e.1, e.2.toValue))
  | [], _, _ => rfl
  | (key, m, p) :: ps, h, depth => by
    obtain ⟨hfirst, hmore⟩ := List.forall_mem_cons.mp h
    rw [loadedEntries, Loaded.depthsOfEntries, contentOfEntries, List.map_cons, Value.depthsOfEntries,
      depths_loaded p hfirst, depths_loadedEntries ps hmore]

end

end Yaml.Placed

/-! ### Reading what is written -/

theorem Yaml.unreadable?_eq_none {cs : List Char} (h : AllReadable cs) : unreadable? cs = none := by
  have hall : cs.takeWhile isReadable = cs := List.takeWhile_eq_self_iff.mpr h
  rw [unreadable?, hall, List.drop_length]
  rfl

/-- A layout of a mapping is loaded as the mapping. -/
theorem Document.exists_loads_of_rootForm {f : Format} {entries : List (String × Content)} {w r : List Char}
    {limits : Limits} (hexact : (Content.mapping entries).IsExact)
    (hdistinct : (Content.mapping entries).IsDistinct)
    (hdepth : ∀ d ∈ (Content.mapping entries).toValue.depths 0, d ≤ maxNesting)
    (hroot : RootForm (f.tokens (.mapping entries)) w) (hr : r = [] ∨ r = ['\n'])
    (hsize : ((w ++ r).length : Int) ≤ limits.maxSize) :
    ∃ p : Placed, p.content = .mapping entries ∧
      Document.Loads limits (String.ofList (w ++ r)) p.loaded := by
  obtain ⟨tokens, htokens, hkinds, hbare⟩ := hroot.ofChars hr
  obtain ⟨p, m, hp, hevents⟩ := exists_events (f := f) Content.noConfusion ⟨hkinds, hbare⟩
  rw [← hp] at hexact hdistinct hdepth
  have hdepths : ∀ d ∈ p.loaded.depths 0, d ≤ maxNesting := p.depths_loaded hdistinct 0 ▸ hdepth
  have hreadable : AllReadable (w ++ r) := by
    refine allReadable_append.mpr ⟨hroot.allReadable, ?_⟩
    rcases hr with rfl | rfl
    · exact allReadable_nil
    · exact List.forall_mem_singleton.mpr (by decide)
  have hchars : EventStream.ofChars (w ++ r) =
      { events := .streamStart :: .documentStart m :: p.events f ++ [.documentEnd, .streamEnd] } := by
    rw [EventStream.ofChars, htokens, hevents]
  have hanchors : (EventStream.ofChars (w ++ r)).hasAnchor = false := by
    rw [hchars, EventStream.hasAnchor, List.any_eq_false]
    have hnone := p.not_hasAnchor f
    simp only [List.cons_append, List.forall_mem_cons, List.forall_mem_append, Bool.not_eq_true]
    exact ⟨rfl, rfl, hnone, rfl, rfl, List.forall_mem_nil _⟩
  refine ⟨p, hp, ?_, EventStream.ofChars (w ++ r), ?_, ?_, ?_⟩
  · rwa [String.toList_ofList]
  · rw [String.toList_ofList, Yaml.events, unreadable?_eq_none hreadable]
  · rw [hanchors]
    exact fun h => Bool.false_ne_true h.2
  · rw [hchars, Yaml.load, Composing.ofEvents?_eq f p m hdepths]
    exact Loaded.ofNode_eq f (p.isSound hexact hdistinct) hdepths

/-- Where lines are folded and quotation marks are set for the value, its texts are kept. -/
def SerializeOptions.Keeps (o : SerializeOptions) (v : Value) : Prop :=
  o.format.KeepsNode .root 0 {} (Content.arranged o.sortKeys v)

/-- Whatever the options, texts are kept that are kept wherever lines are folded. -/
theorem Value.IsTree.keeps {v : Value} (h : v.IsTree) (hexact : v.IsExact) (hkept : v.IsKept)
    (o : SerializeOptions) : o.Keeps v :=
  Format.keepsNode (h.isKept_arranged hkept) (h.isExact_arranged hexact) _ _ _

theorem SerializeOptions.steps_format {o : SerializeOptions} (h : 1 ≤ o.indent) :
    o.format.Steps o.indent.toNat := by
  have hindent : (o.indent.toNat : Int) = o.indent := Int.toNat_of_nonneg (by omega)
  refine ⟨by omega, hindent.symm, ?_, hindent.symm⟩
  show o.indent + 2 = _
  rw [hindent]

/-- The text of a value is that of its document, with the line feed at its end or without. -/
theorem Value.serialize_eq {o : SerializeOptions} {v : Value} {w : List Char}
    (h : o.format.document (Content.arranged o.sortKeys v) = String.ofList (w ++ ['\n'])) :
    ∃ r, v.serialize o = String.ofList (w ++ r) ∧ (r = [] ∨ r = ['\n']) := by
  unfold serialize
  extract_lets text
  have htext : text = String.ofList (w ++ ['\n']) := h
  rw [htext]
  split
  · exact ⟨['\n'], rfl, .inr rfl⟩
  · refine ⟨[], ?_, .inl rfl⟩
    rw [dropNewline, String.toList_ofList, List.reverse_append]
    show String.ofList w.reverse.reverse = _
    rw [List.reverse_reverse, List.append_nil]

/-- A tree whose scalars are written without loss, and whose texts are kept, is read back if its text is
not too long, it holds not too many values and none lies too deep. -/
theorem Value.parse_serialize {o : SerializeOptions} {entries : List (Value × Value)} (limits : Limits)
    (filename : Option String) (hindent : 1 ≤ o.indent) (htree : IsTree (.map entries)) (hexact : IsExact (.map entries))
    (hkeeps : o.Keeps (.map entries))
    (hsize : (((Value.map entries).serialize o).toList.length : Int) ≤ limits.maxSize)
    (hfits : (Value.map entries).Fits limits.maxNodes limits.maxDepth)
    (hdepth : limits.maxDepth ≤ maxNesting) :
    ∃ r d, Document.parse limits ((Value.map entries).serialize o) filename = .ok r ∧ r.errors = [] ∧
      r.document = some d ∧ d.content = Content.arranged o.sortKeys (.map entries) ∧
      (Value.map entries).Reorders d.content.toValue ∧
        (o.sortKeys = false → d.content.toValue = .map entries) := by
  obtain ⟨rows, harranged⟩ : ∃ rows, Content.arranged o.sortKeys (.map entries) = .mapping rows :=
    ⟨_, Content.arranged_map htree.nodup_texts⟩
  have hreorders : (Value.map entries).Reorders (Content.mapping rows).toValue :=
    harranged ▸ htree.reorders_arranged
  have hwritten : (Content.mapping rows).IsExact := harranged ▸ htree.isExact_arranged hexact
  have hdistinct : (Content.mapping rows).IsDistinct := harranged ▸ htree.isDistinct_arranged
  have hrows : ∀ e ∈ rows, e.2.IsExact := by
    cases hwritten with
    | mapping hrows => exact hrows
  obtain ⟨w, hw, hroot⟩ := Format.document_form (SerializeOptions.steps_format hindent) hrows
    (harranged ▸ hkeeps)
  obtain ⟨r, htext, hr⟩ := serialize_eq (harranged ▸ hw)
  have hinside := hreorders.fits hfits
  obtain ⟨p, hp, hloads⟩ := Document.exists_loads_of_rootForm hwritten hdistinct
    (fun d hd => by have := hinside.2 d hd; omega) hroot hr
    (show ((w ++ r).length : Int) ≤ limits.maxSize by rwa [htext, String.toList_ofList] at hsize)
  have hloaded : p.loaded.Fits limits.maxNodes limits.maxDepth := by
    rw [Loaded.Fits, p.depths_loaded (hp ▸ hdistinct), hp]
    exact hinside
  have hnull : p.loaded.isNull = false := by
    cases p with
    | mapping m ps => rfl
    | _ => cases hp
  obtain ⟨s, hrun⟩ := ((Layout.ofText limits (String.ofList (w ++ r)) filename p.loaded).run_buildRoot
    p.isTree_loaded hnull).1 hloaded
  obtain ⟨herrors, d, hd, hcontent, -⟩ := Document.ofLoaded_of_ok hrun
  rw [p.content_loaded, hp] at hcontent
  refine ⟨_, d, htext ▸ Document.parse_of_loads hloads filename, herrors, hd, ?_, ?_, fun hsort => ?_⟩
  · rw [hcontent, harranged]
  · rw [hcontent]
    exact hreorders
  · rw [hcontent, ← harranged, hsort]
    exact htree.toValue_arranged

/-- A model with texts that would be read as something else without quotation marks. -/
def quotedEntries : List (Value × Value) := [
  (.str "name", .str "Orders & 'returns': #1"),
  (.str "- steps", .list [.str "no", .null, .list [.map []], .map [(.str "12", .int (-12))]]),
  (.str "done", .bool true)]

/-- The same model as content. -/
def quotedContent : Content := .mapping [
  ("name", .scalar (.str "Orders & 'returns': #1")),
  ("- steps", .sequence [.scalar (.str "no"), .scalar .null, .sequence [.mapping []],
    .mapping [("12", .scalar (.int (-12)))]]),
  ("done", .scalar (.bool true))]

/-- The model is read back as it is, with as many quotation marks as possible. -/
theorem Value.parse_serialize_quoted : ∃ r d,
    Document.parse {} ((Value.map quotedEntries).serialize { quoting := some .single }) none = .ok r ∧
      r.errors = [] ∧ r.document = some d ∧ d.content.toValue = .map quotedEntries := by
  have htree : IsTree (.map quotedEntries) := Content.isTree_toValue quotedContent
  have hdigits : (Nat.toDigits 10 12).length ≤ maxIntDigits := by decide
  have hexact : IsExact (.map quotedEntries) := by
    simpa [quotedEntries, Scalar.IsExact] using hdigits
  have htexts : ∀ text ∈ ["name", "Orders & 'returns': #1", "- steps", "no", "12", "done"],
      Folding.IsKept text.toList := by decide
  have hkept : IsKept (.map quotedEntries) := by
    simp [-String.reduceToList, quotedEntries, Value.text, Scalar.text, htexts]
  obtain ⟨r, d, hparse, herrors, hd, -, -, hvalue⟩ := parse_serialize
    (o := { quoting := some .single }) {} none (by decide) htree hexact (htree.keeps hexact hkept _)
    (by decide +kernel) ⟨by decide +kernel, by decide +kernel⟩ (by decide)
  exact ⟨r, d, hparse, herrors, hd, hvalue rfl⟩

/-- Two keys that are written alike: a next line in a text is read as a space. -/
def separatedKeys : Value := .map [(.str "\x85", 1), (.str " ", 2)]

/-- The text of a value may be refused when it is read again. -/
theorem Value.serialize_repeats_key :
    ((Document.parse {} (separatedKeys.serialize {}) none).toOption.map fun r =>
      (r.document.isSome, r.errors.map (·.code))) = some (false, [.yamlSyntax]) := by
  decide +kernel

end BusinessModel
