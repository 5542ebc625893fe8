import BusinessModel.Proofs.Schema.Field
import Mathlib.Data.Nat.Find

/-!
Which schema of a set the address of a schema leads to. A set is taken if the addresses of its schemas
differ as they are written, but schemas are registered by their addresses without the number signs at
the end, and of those with one address the last one counts. So a schema can be shadowed by a later one
whose address differs from its own in a number sign only.
-/

namespace BusinessModel

namespace Address

theorem dropHashes_of_notMem {text : String} (h : '#' ∉ text.toList) : dropHashes text = text :=
  dropHashes_eq fun hlast => h (List.mem_of_getLast? hlast)

theorem dropHashes_hash {path : String} (hpath : '#' ∉ path.toList) :
    dropHashes (path ++ "#") = path := by
  have hchars : (path ++ "#").toList.reverse = '#' :: path.toList.reverse := by
    simp [String.toList_append]
  have hdropped := dropHashes_of_notMem hpath
  rw [dropHashes] at hdropped ⊢
  rw [hchars, List.dropWhile_cons_of_pos (by decide), hdropped]

end Address

namespace Schema

/-! ### Addresses -/

/-- What an address means by itself is what a schema with this address is registered by. -/
def MeansItself (address : String) : Prop :=
  Scope.resolve {} address = (Address.dropHashes address, "")

theorem meansItself_of_notMem {address : String} (h : '#' ∉ address.toList) : MeansItself address := by
  rw [MeansItself, Address.dropHashes_of_notMem h, Scope.resolve]
  split
  · next rest hcs => exact absurd (hcs ▸ List.mem_cons_self) h
  · exact if_neg (by simpa [Address.join] using h)

/-- With a number sign at its end, an address means itself if the rest is written as usual. -/
theorem meansItself_hash {path : String} (hpath : '#' ∉ path.toList)
    (hnormal : String.ofList (Address.ofChars path.toList).toChars = path) :
    MeansItself (path ++ "#") := by
  have hchars : (path ++ "#").toList = path.toList ++ ['#'] := by
    simp [String.toList_append]
  rw [MeansItself, Address.dropHashes_hash hpath, Scope.resolve]
  split
  · next rest hcs =>
    rw [hchars] at hcs
    cases hpieces : path.toList with
    | nil =>
      rw [hpieces] at hcs
      cases hcs
      rw [String.toList_eq_nil_iff.mp hpieces]
    | cons c cs =>
      rw [hpieces] at hcs hpath
      exact absurd ((List.cons.inj hcs).1 ▸ List.mem_cons_self) hpath
  · have hsplit : Address.splitFragment (path ++ "#" ++ "") = (path, "") :=
      Address.splitFragment_fragment hpath (by simp) hnormal
    rw [String.append_empty] at hsplit
    exact hsplit

/-- Among schemas there is a last one with the address of any. -/
theorem exists_isLast {schemas : List (String × Value)} {i : Nat} {address : String} {v : Value}
    (h : schemas[i]? = some (address, v)) :
    ∃ j own w, i ≤ j ∧ schemas[j]? = some (own, w) ∧
      Address.dropHashes own = Address.dropHashes address ∧ IsLast schemas j own := by
  classical
  let shares (j : Nat) : Prop :=
    ∃ e, schemas[j]? = some e ∧ Address.dropHashes e.1 = Address.dropHashes address
  have hlength {j : Nat} {e : String × Value} (he : schemas[j]? = some e) : j ≤ schemas.length :=
    Nat.le_of_lt (List.getElem?_eq_some_iff.mp he).1
  have hi : shares i := ⟨_, h, rfl⟩
  obtain ⟨⟨own, w⟩, hlast, hown⟩ := Nat.findGreatest_spec (hlength h) hi
  refine ⟨_, own, w, Nat.le_findGreatest (hlength h) hi, hlast, hown, fun k e hk he heq => ?_⟩
  exact Nat.findGreatest_is_greatest hk (hlength he) ⟨e, he, heq.trans hown⟩

theorem nodup_of_isLast {schemas : List (String × Value)}
    (h : ∀ i address v, schemas[i]? = some (address, v) → IsLast schemas i address) :
    (schemas.map fun e => Address.dropHashes e.1).Nodup := by
  rw [List.Nodup, List.pairwise_map, List.pairwise_iff_getElem]
  intro i j hi hj hij
  exact (h i _ _ (List.getElem?_eq_getElem hi) j _ hij (List.getElem?_eq_getElem hj)).symm

end Schema

namespace SchemaSet

open Schema

/-- The addresses of the schemas that are taken differ. -/
theorem nodup_of_addressed {source : String} {schemas entries : List (String × Value)}
    (h : addressed source schemas = .ok entries) : (entries.map (·.1)).Nodup := by
  have hends : Ends (fun _ => True) (fun seen : List (String × Value) => (seen.map (·.1)).Nodup)
      (addressed source schemas) := by
    refine .foldlM (fun s _ seen hseen => ?_) List.nodup_nil
    obtain ⟨label, v⟩ := s
    refine .bind (Q := fun _ => True) ⟨fun _ => trivial, fun _ => trivial⟩ fun address? _ => ?_
    cases address? with
    | none => exact .error trivial
    | some address =>
      dsimp only
      split
      · exact .error trivial
      · next hfresh =>
        split
        · exact .error trivial
        · exact .error trivial
        · refine .ok ?_
          rw [List.map_append]
          refine List.nodup_append.mpr ⟨hseen, by simp, fun x hx y hy heq => hfresh ?_⟩
          obtain ⟨e, he, rfl⟩ := List.mem_map.mp hx
          exact List.any_eq_true.mpr ⟨e, he, beq_iff_eq.mpr (heq.trans (List.mem_singleton.mp hy))⟩
  exact hends.of_ok h

namespace Draft

section Definitions

variable (d : Draft)

/-- Whatever means the same as the address leads to the schema. -/
def LeadsTo (address : String) (target : Located) : Prop :=
  ∀ scope reference, Scope.resolve scope reference = Scope.resolve {} address →
    ∃ inner, follow d.registry scope reference = .ok (target, inner)

/-- No schema of a set is shadowed: the address of each leads to this schema and to no other. -/
structure IsUnshadowed (s : SchemaSet) : Prop where
  index : d.LeadsTo (ownAddress s.index) ⟨s.index, ⟨0, []⟩⟩
  definitions : d.LeadsTo (ownAddress s.definitions) ⟨s.definitions, ⟨1, []⟩⟩
  document : ∀ type schema, s.schema? (some type) = .ok schema → ∃ address,
    s.addressOfType (some type) = .ok address ∧ d.LeadsTo address ⟨schema, s.placeOf type⟩

end Definitions

variable {d : Draft} {source : String} {s : SchemaSet}

theorem leadsTo_iff {address : String} {target : Located} (hmeans : MeansItself address) :
    d.LeadsTo address target ↔ d.registry.find? (Address.dropHashes address) = some target := by
  constructor
  · intro h
    obtain ⟨inner, hfollow⟩ := h {} address rfl
    rw [follow, hmeans] at hfollow
    dsimp only at hfollow
    split at hfollow
    · cases hfollow
    · next root hroot =>
      cases hfollow
      exact hroot
  · intro hfind scope reference hresolve
    exact ⟨_, follow_root (hresolve.trans hmeans) hfind⟩

/-- What a set is made of. Its metadata are read in the registry of its schemas, and the addresses of
these differ as they are written. -/
theorem eq_of_ofSchemas (hset : ofSchemas source d.index d.definitions d.documents = .ok s) :
    s.index = d.index ∧ s.definitions = d.definitions ∧ s.documents = d.documents ∧
      Metadata.ofSchemas d.index d.definitions d.documents d.registry = .ok s.metadata ∧
      (d.schemas.map (·.1)).Nodup := by
  obtain ⟨schemas, hschemas, hset⟩ := bind_eq_ok_iff.mp hset
  have hnodup := nodup_of_addressed hschemas
  cases eq_map_of_addressed hschemas
  dsimp only at hset
  split at hset
  · cases hset
  · next metadata hmetadata =>
    cases hset
    exact ⟨rfl, rfl, rfl, hmetadata, hnodup⟩

theorem schema?_eq_ok_iff {type : String} {v : Value} :
    s.schema? (some type) = .ok v ↔ s.documents.lookup type = some v := by
  rw [schema?, Option.bind_some]
  cases s.documents.lookup type with
  | none => exact iff_of_false nofun nofun
  | some w => exact Except.ok.injEq w v ▸ Option.some.injEq w v ▸ Iff.rfl

theorem addressOfType_eq {type : String} {v : Value} (h : s.schema? (some type) = .ok v) :
    s.addressOfType (some type) = .ok (ownAddress v) := by
  rw [addressOfType, h]
  rfl

/-- In a list without repeated types, a document stands where its type is found first. -/
theorem lookup_of_getElem? {documents : List (String × Value)} (hnodup : (documents.map (·.1)).Nodup)
    {i : Nat} {type : String} {v : Value} (h : documents[i]? = some (type, v)) :
    documents.lookup type = some v ∧ documents.findIdx (·.1 == type) = i := by
  induction documents generalizing i with
  | nil => cases h
  | cons e rest ih =>
    obtain ⟨hfresh, hnodup⟩ := List.nodup_cons.mp hnodup
    cases i with
    | zero =>
      cases Option.some.inj h
      simp [List.findIdx_cons]
    | succ i =>
      have hne : e.1 ≠ type := fun heq =>
        hfresh (List.mem_map.mpr ⟨_, List.mem_of_getElem? h, heq.symm⟩)
      obtain ⟨hlookup, hindex⟩ := ih hnodup h
      rw [List.lookup_cons, beq_eq_false_iff_ne.mpr hne.symm, List.findIdx_cons,
        beq_eq_false_iff_ne.mpr hne, hindex]
      exact ⟨hlookup, rfl⟩

/-- No schema is shadowed if each schema that the set is made of is found by its address. -/
theorem isUnshadowed_iff (hset : ofSchemas source d.index d.definitions d.documents = .ok s)
    (htypes : (d.documents.map (·.1)).Nodup) :
    d.IsUnshadowed s ↔ ∀ i address v, d.schemas[i]? = some (address, v) →
      d.LeadsTo address ⟨v, ⟨i, []⟩⟩ := by
  obtain ⟨hindex, hdefinitions, hdocuments, -, -⟩ := eq_of_ofSchemas hset
  constructor
  · intro h i address v hi
    match i with
    | 0 =>
      cases hi
      exact hindex ▸ h.index
    | 1 =>
      cases hi
      exact hdefinitions ▸ h.definitions
    | k + 2 =>
      simp only [schemas, labelled, List.map_cons, List.map_map, List.getElem?_cons_succ,
        List.getElem?_map, Option.map_eq_some_iff] at hi
      obtain ⟨⟨type, w⟩, hk, heq⟩ := hi
      cases heq
      obtain ⟨hlookup, hplace⟩ := lookup_of_getElem? htypes hk
      have hschema : s.schema? (some type) = .ok w :=
        schema?_eq_ok_iff.mpr (hdocuments.symm ▸ hlookup)
      obtain ⟨address, haddress, hleads⟩ := h.document type w hschema
      cases (addressOfType_eq hschema).symm.trans haddress
      rw [placeOf, hdocuments, hplace] at hleads
      exact hleads
  · intro h
    constructor
    case index => exact hindex.symm ▸ h 0 _ _ rfl
    case definitions => exact hdefinitions.symm ▸ h 1 _ _ rfl
    case document =>
      intro type v hschema
      have hvalue := getElem?_of_lookup (schema?_eq_ok_iff.mp hschema)
      rw [hdocuments, List.getElem?_map, Option.map_eq_some_iff] at hvalue
      obtain ⟨⟨type', w⟩, hk, rfl⟩ := hvalue
      refine ⟨_, addressOfType_eq hschema, ?_⟩
      rw [placeOf, hdocuments]
      exact h _ _ _ (getElem?_schemas hk)

/-- In a set that is built, the address of a schema leads to the last one with this address, number signs
at the end not counted. So no schema is shadowed exactly if the addresses differ without them, and none
is where no address has a number sign. Addresses with one have to mean themselves. -/
theorem isUnshadowed_iff_nodup
    (hset : ofSchemas source d.index d.definitions d.documents = .ok s)
    (htypes : (d.documents.map (·.1)).Nodup)
    (hmeans : ∀ e ∈ d.schemas, '#' ∈ e.1.toList → MeansItself e.1) :
    Metadata.ofSchemas d.index d.definitions d.documents d.registry = .ok s.metadata ∧
    (∀ i address v, d.schemas[i]? = some (address, v) → ∃ j own w, i ≤ j ∧
      d.schemas[j]? = some (own, w) ∧ Address.dropHashes own = Address.dropHashes address ∧
      IsLast d.schemas j own ∧ d.LeadsTo address ⟨w, ⟨j, []⟩⟩) ∧
    (d.IsUnshadowed s ↔ (d.schemas.map fun e => Address.dropHashes e.1).Nodup) ∧
    ((∀ e ∈ d.schemas, '#' ∉ e.1.toList) → d.IsUnshadowed s) := by
  obtain ⟨-, -, -, hmetadata, hdistinct⟩ := eq_of_ofSchemas hset
  have hself {i : Nat} {address : String} {v : Value} (hi : d.schemas[i]? = some (address, v)) :
      MeansItself address := by
    by_cases hhash : '#' ∈ address.toList
    · exact hmeans _ (List.mem_of_getElem? hi) hhash
    · exact meansItself_of_notMem hhash
  have hleads {i : Nat} {address : String} {v : Value} (hi : d.schemas[i]? = some (address, v)) :
      ∃ j own w, i ≤ j ∧ d.schemas[j]? = some (own, w) ∧
        Address.dropHashes own = Address.dropHashes address ∧ IsLast d.schemas j own ∧
        d.LeadsTo address ⟨w, ⟨j, []⟩⟩ := by
    obtain ⟨j, own, w, hle, hj, hown, hlast⟩ := exists_isLast hi
    refine ⟨j, own, w, hle, hj, hown, hlast, (leadsTo_iff (hself hi)).mpr ?_⟩
    exact hown ▸ Registry.find?_of_isLast hj hlast
  have hiff : d.IsUnshadowed s ↔ (d.schemas.map fun e => Address.dropHashes e.1).Nodup := by
    rw [isUnshadowed_iff hset htypes]
    constructor
    · intro h
      refine nodup_of_isLast fun i address v hi => ?_
      obtain ⟨j, own, w, -, hj, -, hlast, hlater⟩ := hleads hi
      have hfirst := (leadsTo_iff (hself hi)).mp (h i address v hi)
      cases hfirst.symm.trans ((leadsTo_iff (hself hi)).mp hlater)
      cases hj.symm.trans hi
      exact hlast
    · intro hnodup i address v hi
      exact (leadsTo_iff (hself hi)).mpr (Registry.find?_dropHashes hnodup hi)
  refine ⟨hmetadata, fun _ _ _ => hleads, hiff, fun hplain => hiff.mpr ?_⟩
  have hsame : (d.schemas.map fun e => Address.dropHashes e.1) = d.schemas.map (·.1) :=
    List.map_congr_left fun e he => Address.dropHashes_of_notMem (hplain e he)
  exact hsame ▸ hdistinct

/-! ### Number signs -/

/-- Whether all schemas are simple and have different addresses, and there is metadata in them. -/
def isBuilt (d : Draft) : Bool :=
  (d.schemas.all fun e => Metaschema.isSimple 4 e.2 &&
    (e.2.get? "$id").bind Value.str? == some e.1 && !e.1.isEmpty) &&
  decide (d.schemas.map (·.1)).Nodup &&
  (Metadata.ofSchemas d.index d.definitions d.documents d.registry).toOption.isSome

theorem exists_ofSchemas_of_isBuilt (h : d.isBuilt = true) :
    ∃ s, ofSchemas "<given>" d.index d.definitions d.documents = .ok s := by
  rw [isBuilt, Bool.and_eq_true, Bool.and_eq_true, decide_eq_true_eq] at h
  obtain ⟨⟨hsimple, hdistinct⟩, hmetadata⟩ := h
  have hvalues : (labelled d.index d.definitions d.documents).map (·.2) = d.schemas.map (·.2) := by
    simp [schemas, Function.comp_def]
  obtain ⟨metadata, hset⟩ := exists_ofSchemas_of_isSimple hvalues hsimple (by decide)
    (List.pairwise_map.mp hdistinct) hmetadata
  exact ⟨_, hset "<given>"⟩

/-- A document with a number sign at the end of its address. -/
def hashed : Draft := ofDocuments [("doc", .object [("$id", "urn:doc#")])]

/-- The number sign does no harm where no other schema has the address without it. -/
theorem isUnshadowed_hashed : ∃ s,
    ofSchemas "<given>" hashed.index hashed.definitions hashed.documents = .ok s ∧
      hashed.IsUnshadowed s := by
  obtain ⟨s, hset⟩ := exists_ofSchemas_of_isBuilt (d := hashed) (by decide +kernel)
  have hmeans : ∀ e ∈ hashed.schemas, '#' ∈ e.1.toList → MeansItself e.1 := by
    have haddress : ∀ e ∈ hashed.schemas, '#' ∈ e.1.toList → e.1 = "urn:doc" ++ "#" := by
      decide +kernel
    intro e he hhash
    rw [haddress e he hhash]
    exact meansItself_hash (by decide) (by decide)
  exact ⟨s, hset, (isUnshadowed_iff_nodup hset (by decide) hmeans).2.2.1.mpr (by decide +kernel)⟩

/-- A document whose owners are tasks. -/
def tasked : Value :=
  .object [("$id", "urn:doc"),
    ("properties", .object [("owner", .object [("x-ubml", .object [("prefix", "TK")])])])]

/-- The document, and one whose address differs from that of the first in a number sign. -/
def shadowing : Draft :=
  ofDocuments [("first", tasked), ("second", .object [("$id", "urn:doc#")])]

/-- An index whose address is read as another one. -/
def misread : Draft := ⟨.object [("$id", "URN:root#")], .object [("$id", "urn:defs")], []⟩

/-- The second document shadows the first one, whose owners are then unknown to the metadata; and the
index is not found by its address. -/
theorem not_isUnshadowed_of_hash :
    (∃ s, ofSchemas "<given>" shadowing.index shadowing.definitions shadowing.documents = .ok s ∧
      HasNoInnerId (shadowing.schemas.map (·.2)) ∧ ¬ shadowing.IsUnshadowed s ∧
      s.metadata.isReferenceField "owner" = false) ∧
    ∃ s, ofSchemas "<given>" misread.index misread.definitions misread.documents = .ok s ∧
      HasNoInnerId (misread.schemas.map (·.2)) ∧ ¬ misread.IsUnshadowed s := by
  constructor
  · obtain ⟨s, hset⟩ := exists_ofSchemas_of_isBuilt (d := shadowing) (by decide +kernel)
    obtain ⟨-, -, hdocuments, hmetadata, -⟩ := eq_of_ofSchemas hset
    refine ⟨s, hset, hasNoInnerId_of_parts (by decide +kernel), fun h => ?_, ?_⟩
    · have hfirst : s.schema? (some "first") = .ok tasked :=
        schema?_eq_ok_iff.mpr (by rw [hdocuments]; rfl)
      have hplace : s.placeOf "first" = ⟨2, []⟩ := by rw [placeOf, hdocuments]; rfl
      obtain ⟨address, haddress, hleads⟩ := h.document "first" tasked hfirst
      cases (addressOfType_eq hfirst).symm.trans haddress
      rw [hplace] at hleads
      have hfound := (leadsTo_iff (meansItself_of_notMem (by decide +kernel))).mp hleads
      have hsecond : (shadowing.registry.find? (Address.dropHashes "urn:doc")).map (·.place) =
          some ⟨3, []⟩ := by
        decide +kernel
      cases hsecond.symm.trans (congrArg (Option.map (·.place)) hfound)
    · have hfields : (Metadata.ofSchemas shadowing.index shadowing.definitions shadowing.documents
          shadowing.registry).toOption.all (fun m => !m.isReferenceField "owner") = true := by
        decide +kernel
      rw [hmetadata] at hfields
      simpa [Except.toOption] using hfields
  · obtain ⟨s, hset⟩ := exists_ofSchemas_of_isBuilt (d := misread) (by decide +kernel)
    obtain ⟨hindex, -⟩ := eq_of_ofSchemas hset
    refine ⟨s, hset, hasNoInnerId_of_parts (by decide +kernel), fun h => ?_⟩
    obtain ⟨inner, hfollow⟩ := h.index {} _ rfl
    have hnone : (follow misread.registry {} (ownAddress misread.index)).toOption.isNone = true := by
      decide +kernel
    rw [← hindex, hfollow] at hnone
    cases hnone

end Draft

end SchemaSet

end BusinessModel
