import BusinessModel.Document.Kind
import BusinessModel.Proofs.Pointer
import BusinessModel.Proofs.Text.Case
import Mathlib.Tactic.Common

/-!
File names and the types that they announce. Only the last component of a path counts, which slashes
and lone points may follow, and in it only what stands between the last point before the ending and
the ending. Names are put in small letters as a whole; the form of a sigma may depend on what comes
before it, but no type is written with one.
-/

namespace BusinessModel

open Pointer

/-- Nothing, or characters of which the last is the separator. -/
def IsClosedBy (separator : Char) (cs : List Char) : Prop :=
  cs = [] ∨ ∃ front, cs = front ++ [separator]

theorem IsClosedBy.append {separator : Char} {cs ds : List Char} (hcs : IsClosedBy separator cs)
    (hds : IsClosedBy separator ds) : IsClosedBy separator (cs ++ ds) := by
  rcases hds with rfl | ⟨front, rfl⟩
  · rwa [List.append_nil]
  · exact .inr ⟨cs ++ front, by rw [List.append_assoc]⟩

namespace FilePath

/-- A text that names something in a directory. -/
def IsComponent (name : String) : Prop := name ≠ "" ∧ name ≠ "." ∧ '/' ∉ name.toList

instance (name : String) : Decidable (IsComponent name) := inferInstanceAs (Decidable (_ ∧ _))

/-- The end of a path that names nothing: slashes, and lone points behind them. -/
inductive IsIdle : List Char → Prop where
  | nil : IsIdle []
  | slash {cs : List Char} (rest : IsIdle cs) : IsIdle ('/' :: cs)
  | point {cs : List Char} (rest : IsIdle cs) : IsIdle ('/' :: '.' :: cs)

/-- The last component of a path: directories may stand before it, each with its slash, and behind it
there is only what names nothing. -/
def IsLast (path name : String) : Prop :=
  ∃ before behind, path.toList = before ++ name.toList ++ behind ∧ IsClosedBy '/' before ∧
    IsComponent name ∧ IsIdle behind

theorem IsIdle.append {cs ds : List Char} (hcs : IsIdle cs) (hds : IsIdle ds) :
    IsIdle (cs ++ ds) := by
  induction hcs with
  | nil => exact hds
  | slash _ ih => exact .slash ih
  | point _ ih => exact .point ih

theorem IsLast.append_idle {path name behind : String} (h : IsLast path name)
    (hbehind : IsIdle behind.toList) : IsLast (path ++ behind) name := by
  obtain ⟨before, idle, hpath, hbefore, hname, hidle⟩ := h
  refine ⟨before, idle ++ behind.toList, ?_, hbefore, hname, hidle.append hbehind⟩
  rw [String.toList_append, hpath, List.append_assoc _ idle]

theorem IsLast.in_directory {path name : String} (h : IsLast path name) (directories : String) :
    IsLast (directories ++ "/" ++ path) name := by
  obtain ⟨before, idle, hpath, hbefore, hname, hidle⟩ := h
  have hdirectories : IsClosedBy '/' (directories.toList ++ ['/']) := .inr ⟨_, rfl⟩
  refine ⟨directories.toList ++ ['/'] ++ before, idle, ?_, hdirectories.append hbefore, hname, hidle⟩
  rw [String.toList_append, String.toList_append, hpath]
  simp

/-! ### The last component among the pieces of a path -/

/-- A piece that names nothing. -/
def IsIdlePiece (piece : List Char) : Prop := piece = [] ∨ piece = ['.']

/-- The path names nothing: it is an idle end, with or without a point before it. -/
def IsNameless (cs : List Char) : Prop :=
  ∃ piece behind, IsIdlePiece piece ∧ cs = piece ++ behind ∧ IsIdle behind

theorem IsNameless.append {cs ds : List Char} (hcs : IsNameless cs) (hds : IsIdle ds) :
    IsNameless (cs ++ ds) := by
  obtain ⟨piece, behind, hpiece, rfl, hbehind⟩ := hcs
  exact ⟨piece, behind ++ ds, hpiece, List.append_assoc _ _ _, hbehind.append hds⟩

theorem isComponent_ofList {cs : List Char} :
    IsComponent (String.ofList cs) ↔ ¬ IsIdlePiece cs ∧ '/' ∉ cs := by
  rw [IsComponent, IsIdlePiece, not_or, and_assoc, String.toList_ofList,
    show ("" : String) = String.ofList [] from rfl, show "." = String.ofList ['.'] from rfl,
    Ne, Ne, String.ofList_inj, String.ofList_inj]

theorem IsIdlePiece.slash_notMem {piece : List Char} (h : IsIdlePiece piece) : '/' ∉ piece := by
  rcases h with rfl | rfl <;> decide

private theorem filter_idle {pieces : List (List Char)} (h : ∀ piece ∈ pieces, IsIdlePiece piece) :
    ((pieces.map String.ofList).filter fun s => s != "" && s != ".") = [] := by
  rw [List.filter_eq_nil_iff]
  intro s hs
  obtain ⟨piece, hpiece, rfl⟩ := List.mem_map.mp hs
  rcases h piece hpiece with rfl | rfl <;> decide

/-- The pieces behind a piece that only an idle end follows name nothing. -/
private theorem IsIdle.pieces_append {behind piece : List Char} (h : IsIdle behind)
    (hpiece : '/' ∉ piece) :
    ∃ idle, piecesFrom (piece ++ behind) = piece :: idle ∧ ∀ p ∈ idle, IsIdlePiece p := by
  induction h generalizing piece with
  | nil => exact ⟨[], by rw [List.append_nil, piecesFrom_of_notMem hpiece], by simp⟩
  | slash _ ih =>
    obtain ⟨idle, hpieces, hidle⟩ := ih (List.not_mem_nil (a := '/'))
    refine ⟨[] :: idle, ?_, List.forall_mem_cons.mpr ⟨.inl rfl, hidle⟩⟩
    rw [piecesFrom_append_slash hpiece, ← hpieces, List.nil_append]
  | point _ ih =>
    obtain ⟨idle, hpieces, hidle⟩ := ih (show '/' ∉ ['.'] by decide)
    refine ⟨['.'] :: idle, ?_, List.forall_mem_cons.mpr ⟨.inr rfl, hidle⟩⟩
    rw [piecesFrom_append_slash hpiece, ← hpieces, List.singleton_append]

theorem name_eq_empty {path : String} (h : IsNameless path.toList) : name path = "" := by
  obtain ⟨piece, behind, hpiece, hpath, hbehind⟩ := h
  obtain ⟨idle, hpieces, hidle⟩ := hbehind.pieces_append hpiece.slash_notMem
  rw [name, components, pieces, hpath, hpieces,
    filter_idle (List.forall_mem_cons.mpr ⟨hpiece, hidle⟩)]
  rfl

theorem name_eq_of_isLast {path last : String} (h : IsLast path last) : name path = last := by
  obtain ⟨before, behind, hpath, hbefore, ⟨hempty, hpoint, hslash⟩, hbehind⟩ := h
  obtain ⟨idle, hpieces, hidle⟩ := hbehind.pieces_append hslash
  have hkept : ((last :: idle.map String.ofList).filter fun s => s != "" && s != ".") = [last] := by
    rw [List.filter_cons, filter_idle hidle]
    simp [hempty, hpoint]
  have hcomponents : ∃ directories, components path = directories ++ [last] := by
    rcases hbefore with rfl | ⟨front, rfl⟩
    · refine ⟨[], ?_⟩
      rw [components, pieces, hpath, List.nil_append, hpieces, List.map_cons, String.ofList_toList,
        hkept, List.nil_append]
    · have hsplit : path.toList = front ++ '/' :: (last.toList ++ behind) := by simp [hpath]
      rw [components, pieces, hsplit, piecesFrom_slash, hpieces, List.map_append, List.filter_append,
        List.map_cons, String.ofList_toList, hkept]
      exact ⟨_, rfl⟩
  obtain ⟨directories, hcomponents⟩ := hcomponents
  rw [name, hcomponents, List.getLastD_concat]

/-- A character in front of a path with a last component lies in front of that component or, if
nothing else does, belongs to it. -/
private theorem exists_isLast_cons {cs : List Char} {last : String} (c : Char)
    (h : IsLast (String.ofList cs) last) : ∃ longer, IsLast (String.ofList (c :: cs)) longer := by
  obtain ⟨before, behind, hcs, hbefore, hlast, hbehind⟩ := h
  rw [String.toList_ofList] at hcs
  by_cases hclosed : IsClosedBy '/' (c :: before)
  · exact ⟨last, c :: before, behind, by simp [hcs], hclosed, hlast, hbehind⟩
  · rcases hbefore with rfl | ⟨front, rfl⟩
    · have hc : '/' ≠ c := fun h => hclosed (.inr ⟨[], by rw [← h]; rfl⟩)
      refine ⟨String.ofList (c :: last.toList), [], behind, by simp [hcs], .inl rfl, ?_, hbehind⟩
      rw [isComponent_ofList, List.mem_cons, not_or]
      refine ⟨?_, hc, hlast.2.2⟩
      rintro (h | h)
      · cases h
      · exact hlast.1 (String.toList_eq_nil_iff.mp (List.cons.inj h).2)
    · exact absurd (.inr ⟨c :: front, rfl⟩) hclosed

/-- A character in front of a path that names nothing starts a component, unless it names nothing
either. -/
private theorem IsNameless.cons {cs : List Char} (c : Char) (h : IsNameless cs) :
    (∃ last, IsLast (String.ofList (c :: cs)) last) ∨ IsNameless (c :: cs) := by
  obtain ⟨piece, behind, hpiece, rfl, hbehind⟩ := h
  by_cases hslash : '/' = c
  · refine .inr ⟨[], c :: (piece ++ behind), .inl rfl, rfl, ?_⟩
    rw [← hslash]
    rcases hpiece with rfl | rfl
    · exact .slash hbehind
    · exact .point hbehind
  · by_cases hidle : IsIdlePiece (c :: piece)
    · exact .inr ⟨c :: piece, behind, hidle, rfl, hbehind⟩
    · refine .inl ⟨String.ofList (c :: piece), [], behind, by simp, .inl rfl, ?_, hbehind⟩
      rw [isComponent_ofList, List.mem_cons, not_or]
      exact ⟨hidle, hslash, hpiece.slash_notMem⟩

/-- A path has a last component unless nothing in it names anything. -/
theorem exists_isLast_or_isNameless (path : String) :
    (∃ last, IsLast path last) ∨ IsNameless path.toList := by
  rw [← String.ofList_toList (s := path), String.toList_ofList]
  induction path.toList with
  | nil => exact .inr ⟨[], [], .inl rfl, rfl, .nil⟩
  | cons c rest ih =>
    rcases ih with ⟨last, hlast⟩ | hrest
    · exact .inl (exists_isLast_cons c hlast)
    · exact hrest.cons c

/-- The last component of a path is its name; a path without one has no name. -/
theorem isLast_iff {path last : String} : IsLast path last ↔ last ≠ "" ∧ name path = last := by
  constructor
  · intro h
    obtain ⟨_, _, _, _, hlast, _⟩ := id h
    exact ⟨hlast.1, name_eq_of_isLast h⟩
  · rintro ⟨hne, rfl⟩
    rcases exists_isLast_or_isNameless path with ⟨last, hlast⟩ | hpath
    · rwa [name_eq_of_isLast hlast]
    · exact absurd (name_eq_empty hpath) hne

/-- What names nothing at the end of a path does not change its name. -/
theorem name_append_idle {path behind : String} (hbehind : IsIdle behind.toList) :
    name (path ++ behind) = name path := by
  rcases exists_isLast_or_isNameless path with ⟨last, hlast⟩ | hpath
  · rw [name_eq_of_isLast hlast, name_eq_of_isLast (hlast.append_idle hbehind)]
  · have happend : IsNameless (path ++ behind).toList := by
      rw [String.toList_append]
      exact hpath.append hbehind
    rw [name_eq_empty hpath, name_eq_empty happend]

end FilePath

/-! ### Endings and types -/

theorem dropSuffix?_eq_some_iff {name ending stem : String} :
    dropSuffix? name.toList ending.toList = some stem.toList ↔ name = stem ++ ending := by
  rw [← String.toList_inj, String.toList_append]
  generalize name.toList = cs, stem.toList = front, ending.toList = back
  unfold dropSuffix?
  constructor
  · intro h
    split at h
    · next hsuffix =>
      obtain ⟨front', rfl⟩ := List.isSuffixOf_iff_suffix.mp hsuffix
      simpa using h
    · cases h
  · rintro rfl
    rw [if_pos (List.isSuffixOf_iff_suffix.mpr (List.suffix_append front back))]
    simp

/-- The characters behind the last point are those that hold none, behind one or at the start. -/
theorem afterLastPoint_append {front last : List Char} (hfront : IsClosedBy '.' front)
    (hlast : '.' ∉ last) : afterLastPoint (front ++ last) = last := by
  have htaken : (front ++ last).reverse.takeWhile (· != '.') = last.reverse := by
    have hreverse : ∀ c ∈ last.reverse, (c != '.') = true := by
      intro c hc
      rw [bne_iff_ne]
      rintro rfl
      exact hlast (List.mem_reverse.mp hc)
    rw [List.reverse_append, List.takeWhile_append_of_pos hreverse]
    rcases hfront with rfl | ⟨front, rfl⟩ <;> simp
  rw [afterLastPoint, htaken, List.reverse_reverse]

theorem point_notMem_afterLastPoint (cs : List Char) : '.' ∉ afterLastPoint cs := by
  intro h
  have hpoint := List.all_eq_true.mp List.all_takeWhile _ (List.mem_reverse.mp h)
  cases hpoint

/-- What stands before the characters behind the last point ends with it. -/
theorem exists_front_afterLastPoint (cs : List Char) :
    ∃ front, IsClosedBy '.' front ∧ cs = front ++ afterLastPoint cs := by
  have hsplit : cs = (cs.reverse.dropWhile (· != '.')).reverse ++ afterLastPoint cs := by
    rw [afterLastPoint, ← List.reverse_append, List.takeWhile_append_dropWhile, List.reverse_reverse]
  refine ⟨_, ?_, hsplit⟩
  cases hrest : cs.reverse.dropWhile (· != '.') with
  | nil => exact .inl rfl
  | cons c rest =>
    have hc := List.head?_dropWhile_not (· != '.') cs.reverse
    rw [hrest] at hc
    refine .inr ⟨rest.reverse, ?_⟩
    rw [List.reverse_cons, show c = '.' by simpa using hc]

/-- The name has one of the two endings of model files, behind the stem. -/
def HasStem (stem name : String) : Prop := name = stem ++ ".ubml.yaml" ∨ name = stem ++ ".ubml.yml"

/-- The name announces the type: the type stands before the ending, and before the type there is
nothing or something that ends with a point. -/
def Announces (type name : String) : Prop :=
  ∃ front : String, IsClosedBy '.' front.toList ∧ HasStem (front ++ type) name

/-- No name has both endings. -/
theorem append_ending_ne (stem stem' : String) : stem ++ ".ubml.yaml" ≠ stem' ++ ".ubml.yml" := by
  intro h
  have hreverse := congrArg (fun s => s.toList.reverse) h
  simp [String.toList_append] at hreverse

theorem HasStem.ne_empty {stem name : String} (h : HasStem stem name) : name ≠ "" := by
  rcases h with rfl | rfl <;> simp

theorem HasStem.unique {stem stem' name : String} (h : HasStem stem name)
    (h' : HasStem stem' name) : stem = stem' := by
  rcases h with rfl | rfl
  · rcases h' with h' | h'
    · exact (String.append_left_inj _).mp h'
    · exact absurd h' (append_ending_ne stem stem')
  · rcases h' with h' | h'
    · exact absurd h'.symm (append_ending_ne stem' stem)
    · exact (String.append_left_inj _).mp h'

theorem hasStem_iff {stem name : String} :
    HasStem stem name ↔ ∃ suffix ∈ fileSuffixes, name = stem ++ suffix := by
  simp [HasStem, fileSuffixes]

/-- The type that is written behind the last point of a stem. -/
private def typeOfStem (stem : List Char) : Option String :=
  if documentTypes.contains (String.ofList (afterLastPoint stem)) then
    some (String.ofList (afterLastPoint stem)) else none

private theorem typeOfStem_eq_some_iff {stem : List Char} {type : String} :
    typeOfStem stem = some type ↔ type ∈ documentTypes ∧ afterLastPoint stem = type.toList := by
  unfold typeOfStem
  constructor
  · intro h
    split at h
    · next hknown =>
      cases h
      exact ⟨List.contains_iff_mem.mp hknown, String.toList_ofList.symm⟩
    · cases h
  · rintro ⟨hknown, hlast⟩
    rw [hlast, String.ofList_toList, if_pos (List.contains_iff_mem.mpr hknown)]

private theorem typeOfFileName_eq (file : String) : typeOfFileName (some file) =
    fileSuffixes.findSome? fun suffix =>
      (dropSuffix? (Text.lower (FilePath.name file)).toList suffix.toList).bind typeOfStem := by
  rw [typeOfFileName]
  dsimp only
  congr 1
  funext suffix
  cases dropSuffix? (Text.lower (FilePath.name file)).toList suffix.toList <;> rfl

theorem typeOfFileName_congr {file file' : String}
    (h : FilePath.name file = FilePath.name file') :
    typeOfFileName (some file) = typeOfFileName (some file') := by
  rw [typeOfFileName, typeOfFileName, h]

/-- A file has a type if its name has a stem, one of the endings behind it, and the stem a type. -/
private theorem exists_stem_of_typeOfFileName {file type : String}
    (h : typeOfFileName (some file) = some type) :
    ∃ stem, HasStem stem (Text.lower (FilePath.name file)) ∧ typeOfStem stem.toList = some type := by
  rw [typeOfFileName_eq] at h
  obtain ⟨suffix, hsuffix, hstem⟩ := List.exists_of_findSome?_eq_some h
  obtain ⟨stem, hstem, htype⟩ := Option.bind_eq_some_iff.mp hstem
  rw [← String.toList_ofList (l := stem)] at hstem htype
  exact ⟨_, hasStem_iff.mpr ⟨suffix, hsuffix, dropSuffix?_eq_some_iff.mp hstem⟩, htype⟩

/-- The type of a file is the one behind the last point of the stem of its name. -/
theorem HasStem.typeOfFileName_iff {file stem type : String}
    (h : HasStem stem (Text.lower (FilePath.name file))) :
    typeOfFileName (some file) = some type ↔
      type ∈ documentTypes ∧ afterLastPoint stem.toList = type.toList := by
  rw [← typeOfStem_eq_some_iff]
  constructor
  · intro htype
    obtain ⟨stem', hstem', htype⟩ := exists_stem_of_typeOfFileName htype
    rwa [h.unique hstem']
  · intro htype
    obtain ⟨suffix, hsuffix, hname⟩ := hasStem_iff.mp h
    cases hfound : typeOfFileName (some file) with
    | none =>
      rw [typeOfFileName_eq, List.findSome?_eq_none_iff] at hfound
      have hnone := hfound suffix hsuffix
      rw [dropSuffix?_eq_some_iff.mpr hname, Option.bind_some, htype] at hnone
      cases hnone
    | some type' =>
      -- Whichever ending was found first, the stem is the same.
      obtain ⟨stem', hstem', htype'⟩ := exists_stem_of_typeOfFileName hfound
      rw [← htype', ← h.unique hstem', htype]

/-- No type is written with points, stars, slashes or sigmas. -/
theorem plain_of_mem_documentTypes {type : String} (h : type ∈ documentTypes) :
    ∀ c ∈ type.toList, c ≠ '.' ∧ c ≠ '*' ∧ c ≠ '/' ∧ c ≠ 'σ' ∧ c ≠ 'ς' := by
  have hall : (documentTypes.all fun t => t.toList.all fun c =>
      c != '.' && (c != '*' && (c != '/' && (c != 'σ' && c != 'ς')))) = true := by
    decide
  intro c hc
  simpa using List.all_eq_true.mp (List.all_eq_true.mp hall type h) c hc

theorem plain_of_mem_fileSuffixes {suffix : String} (h : suffix ∈ fileSuffixes) :
    ∀ c ∈ suffix.toList, c ≠ 'σ' ∧ c ≠ 'ς' := by
  have hall : (fileSuffixes.all fun s => s.toList.all fun c => c != 'σ' && c != 'ς') = true := by
    decide
  intro c hc
  simpa using List.all_eq_true.mp (List.all_eq_true.mp hall suffix h) c hc

/-- A name announces one type at most. -/
theorem Announces.unique {type type' name : String} (htype : type ∈ documentTypes)
    (htype' : type' ∈ documentTypes) (h : Announces type name) (h' : Announces type' name) :
    type = type' := by
  obtain ⟨front, hfront, hstem⟩ := h
  obtain ⟨front', hfront', hstem'⟩ := h'
  have hpoint (t : String) (ht : t ∈ documentTypes) : '.' ∉ t.toList := fun hmem =>
    (plain_of_mem_documentTypes ht _ hmem).1 rfl
  have hlast := congrArg (fun s => afterLastPoint s.toList) (hstem.unique hstem')
  simp only [String.toList_append] at hlast
  rw [afterLastPoint_append hfront (hpoint type htype),
    afterLastPoint_append hfront' (hpoint type' htype')] at hlast
  exact String.toList_inj.mp hlast

/-- A file has the type that its name announces. -/
theorem typeOfFileName_iff_announces {file type : String} : typeOfFileName (some file) = some type ↔
    type ∈ documentTypes ∧ Announces type (Text.lower (FilePath.name file)) := by
  constructor
  · intro h
    obtain ⟨stem, hstem, _⟩ := exists_stem_of_typeOfFileName h
    obtain ⟨htype, hlast⟩ := hstem.typeOfFileName_iff.mp h
    obtain ⟨front, hfront, hsplit⟩ := exists_front_afterLastPoint stem.toList
    refine ⟨htype, String.ofList front, by rwa [String.toList_ofList], ?_⟩
    rwa [show String.ofList front ++ type = stem by
      rw [← String.toList_inj, String.toList_append, String.toList_ofList, ← hlast, ← hsplit]]
  · rintro ⟨htype, front, hfront, hstem⟩
    refine hstem.typeOfFileName_iff.mpr ⟨htype, ?_⟩
    rw [String.toList_append, afterLastPoint_append hfront]
    exact fun hpoint => (plain_of_mem_documentTypes htype _ hpoint).1 rfl

/-! ### Further parts of a name -/

theorem afterLastPoint_append_closed {front : List Char} (hfront : IsClosedBy '.' front)
    (cs : List Char) : afterLastPoint (front ++ cs) = afterLastPoint cs := by
  obtain ⟨before, hbefore, hsplit⟩ := exists_front_afterLastPoint cs
  conv_lhs => rw [hsplit, ← List.append_assoc]
  exact afterLastPoint_append (hfront.append hbefore) (point_notMem_afterLastPoint cs)

theorem map_oneSigma_afterLastPoint (cs : List Char) :
    (afterLastPoint cs).map Text.oneSigma = afterLastPoint (cs.map Text.oneSigma) := by
  have hpoint : ((· != '.') ∘ Text.oneSigma) = (· != '.') := by
    funext c
    rw [Function.comp_apply, Bool.eq_iff_iff, bne_iff_ne, bne_iff_ne, Ne,
      Text.oneSigma_eq_iff (by decide)]
  rw [afterLastPoint, afterLastPoint, ← List.map_reverse, List.map_reverse, List.takeWhile_map, hpoint]

/-- In small letters, a further part and a point before a name stand before the same stem, up to its
sigmas. -/
theorem HasStem.append_point {stem name : String} (h : HasStem stem (Text.lower name))
    (front : String) : ∃ small stem' : String,
      HasStem (small ++ "." ++ stem') (Text.lower (front ++ "." ++ name)) ∧
        stem'.toList.map Text.oneSigma = stem.toList.map Text.oneSigma := by
  obtain ⟨suffix, hsuffix, hname⟩ := hasStem_iff.mp h
  have hplain := plain_of_mem_fileSuffixes hsuffix
  obtain ⟨small, hsmall⟩ := Text.lowerChars_append [] front.toList ('.' :: name.toList)
  rw [Text.lowerChars_point] at hsmall
  -- The name is put in small letters behind other characters here, and alone there.
  have hmap := Text.map_oneSigma_lowerChars ('.' :: (front.toList.reverse ++ [])) [] name.toList
  rw [show Text.lowerChars [] name.toList = stem.toList ++ suffix.toList by
    rw [← String.toList_append, ← hname, Text.lower, String.toList_ofList],
    List.map_append, (Text.map_oneSigma_eq_iff hplain).mpr rfl, List.map_eq_append_iff] at hmap
  obtain ⟨stem', ending, hsplit, hstem', hending⟩ := hmap
  rw [Text.map_oneSigma_eq_iff hplain] at hending
  refine ⟨String.ofList small, String.ofList stem', hasStem_iff.mpr ⟨suffix, hsuffix, ?_⟩, ?_⟩
  · rw [hsplit, hending] at hsmall
    rw [← String.toList_inj, Text.lower, String.toList_ofList]
    simpa using hsmall
  · rw [String.toList_ofList, hstem']

/-- Further parts with points in front of a name that has one of the endings do not matter. -/
theorem typeOfFileName_append_point {file file' front stem : String}
    (h : HasStem stem (Text.lower (FilePath.name file)))
    (hname : FilePath.name file' = front ++ "." ++ FilePath.name file) :
    typeOfFileName (some file') = typeOfFileName (some file) := by
  obtain ⟨small, stem', hstem', hsigma⟩ := h.append_point front
  rw [← hname] at hstem'
  have hclosed : IsClosedBy '.' (small ++ ".").toList := .inr ⟨small.toList, by simp⟩
  ext type
  rw [hstem'.typeOfFileName_iff, h.typeOfFileName_iff]
  refine and_congr_right fun htype => ?_
  have hplain : ∀ c ∈ type.toList, c ≠ 'σ' ∧ c ≠ 'ς' := fun c hc =>
    (plain_of_mem_documentTypes htype c hc).2.2.2
  rw [String.toList_append, afterLastPoint_append_closed hclosed,
    ← Text.map_oneSigma_eq_iff hplain, map_oneSigma_afterLastPoint, hsigma,
    ← map_oneSigma_afterLastPoint, Text.map_oneSigma_eq_iff hplain]

/-- A name with a further part and a point before it is a name. -/
theorem FilePath.isLast_append_point {file name front : String} (h : FilePath.IsLast file name)
    (hfront : '/' ∉ front.toList) :
    FilePath.IsLast (front ++ "." ++ name) (front ++ "." ++ name) := by
  obtain ⟨_, _, _, _, ⟨hempty, _, hslash⟩, _⟩ := h
  refine ⟨[], [], by simp, .inl rfl, ⟨by simp, fun heq => ?_, ?_⟩, .nil⟩
  · have hlength := congrArg (·.toList.length) heq
    have hpos := List.length_pos_iff.mpr (String.toList_eq_nil_iff.not.mpr hempty)
    simp only [String.toList_append, List.length_append] at hlength
    have hpoint : ".".toList.length = 1 := rfl
    omega
  · simp [hfront, hslash]

/-- A file has a type exactly if the last component of its path announces it in small letters: the
type, one of the two endings behind it, and before it nothing or something that ends with a point.
Whatever directories stand before it, whatever slashes and lone points behind it, and whatever further
parts with points the name begins with, the type is the same; and a name announces one type at most. -/
theorem typeOfFileName_reads_last_name (file : String) :
    (∀ type, typeOfFileName (some file) = some type ↔ type ∈ documentTypes ∧
      ∃ name, FilePath.IsLast file name ∧ Announces type (Text.lower name)) ∧
    (∀ behind : String, FilePath.IsIdle behind.toList →
      typeOfFileName (some (file ++ behind)) = typeOfFileName (some file)) ∧
    (∀ name, FilePath.IsLast file name →
      (∀ directories,
        typeOfFileName (some (directories ++ "/" ++ file)) = typeOfFileName (some file)) ∧
      ∀ front stem, '/' ∉ front.toList → HasStem stem (Text.lower name) →
        typeOfFileName (some (front ++ "." ++ name)) = typeOfFileName (some file)) ∧
    ∀ name type type', type ∈ documentTypes → type' ∈ documentTypes →
      Announces type name → Announces type' name → type = type' := by
  refine ⟨fun type => ?_, fun behind hbehind => ?_, fun name hname => ⟨fun directories => ?_, ?_⟩, ?_⟩
  · rw [typeOfFileName_iff_announces]
    refine and_congr_right fun _ => ⟨fun h => ?_, ?_⟩
    · refine ⟨_, FilePath.isLast_iff.mpr ⟨?_, rfl⟩, h⟩
      intro hempty
      obtain ⟨_, _, hstem⟩ := h
      exact hstem.ne_empty (by rw [hempty]; rfl)
    · rintro ⟨name, hname, h⟩
      rwa [FilePath.name_eq_of_isLast hname]
  · exact typeOfFileName_congr (FilePath.name_append_idle hbehind)
  · refine typeOfFileName_congr ?_
    rw [FilePath.name_eq_of_isLast hname, FilePath.name_eq_of_isLast (hname.in_directory directories)]
  · intro front stem hfront hstem
    have hfile := FilePath.name_eq_of_isLast hname
    have hlonger : FilePath.name (front ++ "." ++ name) = front ++ "." ++ FilePath.name file := by
      rw [FilePath.name_eq_of_isLast (FilePath.isLast_append_point hname hfront), hfile]
    rw [← hfile] at hstem
    exact typeOfFileName_append_point hstem hlonger
  · exact fun name type type' htype htype' => Announces.unique htype htype'

/-- A name in capitals, with directories and slashes around it. -/
def capitalFile : String := "docs//Order.Entities.UBML.YAML"

theorem typeOfFileName_reads_capitals :
    FilePath.IsIdle "/./".toList ∧ FilePath.IsLast capitalFile "Order.Entities.UBML.YAML" ∧
      '/' ∉ "Άλφα.Σ".toList ∧ HasStem "order.entities" (Text.lower "Order.Entities.UBML.YAML") ∧
      "entities" ∈ documentTypes ∧ Announces "entities" "order.entities.ubml.yaml" ∧
      typeOfFileName (some (capitalFile ++ "/./")) = some "entities" ∧
      typeOfFileName (some ("/models/.." ++ "/" ++ capitalFile)) = some "entities" ∧
      typeOfFileName (some ("Άλφα.Σ" ++ "." ++ "Order.Entities.UBML.YAML")) = some "entities" ∧
      "entities" = "entities" := by
  have hidle : FilePath.IsIdle "/./".toList := .point (.slash .nil)
  have hname : FilePath.IsLast capitalFile "Order.Entities.UBML.YAML" :=
    FilePath.isLast_iff.mpr (by decide +kernel)
  have hfront : '/' ∉ "Άλφα.Σ".toList := by decide
  have hstem : HasStem "order.entities" (Text.lower "Order.Entities.UBML.YAML") := by
    left
    decide +kernel
  have htype : "entities" ∈ documentTypes := by decide
  have hannounces : Announces "entities" "order.entities.ubml.yaml" :=
    ⟨"order.", .inr ⟨"order".toList, rfl⟩, .inl rfl⟩
  have hfile : typeOfFileName (some capitalFile) = some "entities" := by decide +kernel
  obtain ⟨_, hbehind, hbefore, hunique⟩ := typeOfFileName_reads_last_name capitalFile
  exact ⟨hidle, hname, hfront, hstem, htype, hannounces, (hbehind _ hidle).trans hfile,
    ((hbefore _ hname).1 _).trans hfile, ((hbefore _ hname).2 _ _ hfront hstem).trans hfile,
    hunique _ _ _ htype htype hannounces hannounces⟩

end BusinessModel
