import BusinessModel.Proofs.Document.FileName

/-!
Patterns of file names against the recognition of types by file names. In a pattern two stars and a
slash stand for any directories or none, and a star for any characters but slashes. The patterns match
the names that announce a type with the long ending, and each of them only those of its own type; no
pattern has the short ending, with which types are recognised as well.
-/

namespace BusinessModel

/-! ### Patterns -/

namespace FilePattern

/-- A part of a pattern: any directories or none, any characters but slashes, or a character. -/
inductive Part where
  | directories
  | run
  | char (c : Char)
deriving DecidableEq, Repr

/-- The parts of a pattern as written. -/
def parts : List Char → List Part
  | '*' :: '*' :: '/' :: rest => .directories :: parts rest
  | '*' :: rest => .run :: parts rest
  | c :: rest => .char c :: parts rest
  | [] => []

/-- The characters are matched by the parts, one part after the other. -/
inductive Fits : List Part → List Char → Prop where
  | nil : Fits [] []
  | directories {before cs : List Char} {ps : List Part} (hbefore : IsClosedBy '/' before)
      (tail : Fits ps cs) : Fits (.directories :: ps) (before ++ cs)
  | run {front cs : List Char} {ps : List Part} (hfront : '/' ∉ front) (tail : Fits ps cs) :
      Fits (.run :: ps) (front ++ cs)
  | char {c : Char} {cs : List Char} {ps : List Part} (tail : Fits ps cs) :
      Fits (.char c :: ps) (c :: cs)

/-- The pattern matches the path. -/
def Matches (pattern path : String) : Prop := Fits (parts pattern.toList) path.toList

theorem parts_of_notMem {word : List Char} (h : '*' ∉ word) : parts word = word.map .char := by
  induction word with
  | nil => rfl
  | cons c word ih =>
    rw [List.mem_cons, not_or] at h
    rw [parts, ih h.2, List.map_cons]
    · intro rest hc
      exact absurd hc.symm h.1
    · exact fun hc => absurd hc.symm h.1

theorem fits_word_iff {word cs : List Char} : Fits (word.map .char) cs ↔ cs = word := by
  induction word generalizing cs with
  | nil =>
    constructor
    · rintro ⟨⟩
      rfl
    · rintro rfl
      exact .nil
  | cons c word ih =>
    constructor
    · rintro ⟨⟩
      next tail => rw [ih.mp tail]
    · rintro rfl
      exact .char (ih.mpr rfl)

theorem fits_directories_iff {ps : List Part} {cs : List Char} : Fits (.directories :: ps) cs ↔
    ∃ before rest, IsClosedBy '/' before ∧ Fits ps rest ∧ cs = before ++ rest := by
  constructor
  · rintro ⟨⟩
    next hbefore tail => exact ⟨_, _, hbefore, tail, rfl⟩
  · rintro ⟨before, rest, hbefore, tail, rfl⟩
    exact .directories hbefore tail

theorem fits_run_iff {ps : List Part} {cs : List Char} : Fits (.run :: ps) cs ↔
    ∃ front rest, '/' ∉ front ∧ Fits ps rest ∧ cs = front ++ rest := by
  constructor
  · rintro ⟨⟩
    next hfront tail => exact ⟨_, _, hfront, tail, rfl⟩
  · rintro ⟨front, rest, hfront, tail, rfl⟩
    exact .run hfront tail

/-- The patterns for the files of a type. -/
def ofType (type : String) : List String :=
  ["**/*." ++ type ++ ".ubml.yaml", "**/" ++ type ++ ".ubml.yaml"]

theorem filePatterns_eq : filePatterns = documentTypes.flatMap ofType := rfl

theorem mem_filePatterns_iff {pattern : String} :
    pattern ∈ filePatterns ↔ ∃ type ∈ documentTypes, pattern ∈ ofType type := by
  rw [filePatterns_eq, List.mem_flatMap]

section OfType

variable {type path : String} (htype : '*' ∉ type.toList)

include htype

private theorem star_notMem_ending : '*' ∉ type.toList ++ ".ubml.yaml".toList := by
  rw [List.mem_append, not_or]
  exact ⟨htype, by decide⟩

/-- The first pattern for a type matches the paths in which a point stands before it. -/
theorem matches_behind_point_iff : Matches ("**/*." ++ type ++ ".ubml.yaml") path ↔
    ∃ before part, IsClosedBy '/' before ∧ '/' ∉ part ∧
      path.toList = before ++ (part ++ '.' :: (type.toList ++ ".ubml.yaml".toList)) := by
  have hpoint : '*' ∉ '.' :: (type.toList ++ ".ubml.yaml".toList) := by
    rw [List.mem_cons, not_or]
    exact ⟨by decide, star_notMem_ending htype⟩
  have hparts : parts ("**/*." ++ type ++ ".ubml.yaml").toList =
      .directories :: .run :: ('.' :: (type.toList ++ ".ubml.yaml".toList)).map .char := by
    rw [← parts_of_notMem hpoint, String.toList_append, String.toList_append, List.append_assoc]
    rfl
  simp only [Matches, hparts, fits_directories_iff, fits_run_iff, fits_word_iff]
  constructor
  · rintro ⟨before, _, hbefore, ⟨part, _, hpart, rfl, rfl⟩, hpath⟩
    exact ⟨before, part, hbefore, hpart, hpath⟩
  · rintro ⟨before, part, hbefore, hpart, hpath⟩
    exact ⟨before, _, hbefore, ⟨part, _, hpart, rfl, rfl⟩, hpath⟩

/-- The second pattern for a type matches the paths in which it starts the name. -/
theorem matches_at_start_iff : Matches ("**/" ++ type ++ ".ubml.yaml") path ↔
    ∃ before, IsClosedBy '/' before ∧
      path.toList = before ++ (type.toList ++ ".ubml.yaml".toList) := by
  have hparts : parts ("**/" ++ type ++ ".ubml.yaml").toList =
      .directories :: (type.toList ++ ".ubml.yaml".toList).map .char := by
    rw [← parts_of_notMem (star_notMem_ending htype), String.toList_append, String.toList_append,
      List.append_assoc]
    rfl
  simp only [Matches, hparts, fits_directories_iff, fits_word_iff]
  constructor
  · rintro ⟨before, _, hbefore, rfl, hpath⟩
    exact ⟨before, hbefore, hpath⟩
  · rintro ⟨before, hbefore, hpath⟩
    exact ⟨before, _, hbefore, rfl, hpath⟩

/-- The patterns for a type match the paths whose name ends with it and the long ending, nothing or
something that ends with a point before it. -/
theorem matches_ofType_iff : (∃ pattern ∈ ofType type, Matches pattern path) ↔
    ∃ before front : String, IsClosedBy '/' before.toList ∧ IsClosedBy '.' front.toList ∧
      '/' ∉ front.toList ∧ path = before ++ (front ++ type ++ ".ubml.yaml") := by
  simp only [ofType, List.mem_cons, List.not_mem_nil, or_false, exists_eq_or_imp, exists_eq_left,
    matches_behind_point_iff htype, matches_at_start_iff htype]
  constructor
  · rintro (⟨before, part, hbefore, hpart, hpath⟩ | ⟨before, hbefore, hpath⟩)
    · refine ⟨String.ofList before, String.ofList (part ++ ['.']), ?_, ?_, ?_, ?_⟩
      · rwa [String.toList_ofList]
      · exact .inr ⟨part, String.toList_ofList⟩
      · simpa using hpart
      · rw [← String.toList_inj, hpath]
        simp
    · refine ⟨String.ofList before, "", by rwa [String.toList_ofList], .inl rfl, by decide, ?_⟩
      rw [← String.toList_inj, hpath]
      simp
  · rintro ⟨before, front, hbefore, hclosed | ⟨part, hclosed⟩, hfront, rfl⟩
    · exact .inr ⟨before.toList, hbefore, by simp [hclosed]⟩
    · rw [hclosed, List.mem_append, not_or] at hfront
      exact .inl ⟨before.toList, part, hbefore, hfront.1, by simp [hclosed]⟩

end OfType

end FilePattern

/-! ### Relative paths -/

namespace FilePath

/-- A relative path of components that are names, one at least, with single slashes between them. -/
def IsPlain (path : String) : Prop :=
  ∃ names : List String, names ≠ [] ∧ (∀ name ∈ names, IsComponent name) ∧
    path = "/".intercalate names

/-- A plain path ends with its last component. -/
theorem IsPlain.exists_last {path : String} (h : IsPlain path) :
    ∃ before name : String, IsClosedBy '/' before.toList ∧ IsComponent name ∧ path = before ++ name := by
  obtain ⟨names, hne, hnames, rfl⟩ := h
  induction names with
  | nil => exact absurd rfl hne
  | cons name rest ih =>
    obtain ⟨hname, hrest⟩ := List.forall_mem_cons.mp hnames
    cases rest with
    | nil => exact ⟨"", name, .inl rfl, hname, by simp⟩
    | cons next rest =>
      obtain ⟨before, last, hbefore, hlast, hpath⟩ := ih (List.cons_ne_nil next rest) hrest
      refine ⟨name ++ "/" ++ before, last, ?_, hlast, ?_⟩
      · have hname : IsClosedBy '/' (name ++ "/").toList := .inr ⟨name.toList, by simp⟩
        rw [String.toList_append]
        exact hname.append hbefore
      · rw [String.append_assoc, ← hpath, String.intercalate_cons_cons]

/-- What stands behind the last slash is the last component. -/
theorem isLast_append {before name : String} (hbefore : IsClosedBy '/' before.toList)
    (hname : IsComponent name) : IsLast (before ++ name) name :=
  ⟨before.toList, [], by simp, hbefore, hname, .nil⟩

end FilePath

open FilePattern

/-- The patterns for a type match the paths in small letters whose name announces it with the long
ending. -/
theorem typeOfFileName_of_matches {path type pattern : String} (hlower : Text.lower path = path)
    (htype : type ∈ documentTypes) (hpattern : pattern ∈ ofType type)
    (hmatches : Matches pattern path) :
    typeOfFileName (some path) = some type ∧ ∃ stem, path = stem ++ ".ubml.yaml" := by
  have hplain := plain_of_mem_documentTypes htype
  have hstar : '*' ∉ type.toList := fun hmem => (hplain _ hmem).2.1 rfl
  obtain ⟨before, front, hbefore, hclosed, hfront, rfl⟩ :=
    (matches_ofType_iff hstar).mp ⟨pattern, hpattern, hmatches⟩
  have hname : FilePath.IsComponent (front ++ type ++ ".ubml.yaml") := by
    refine ⟨by simp, fun heq => ?_, ?_⟩
    · have hlast := congrArg (·.toList.getLast?) heq
      simp at hlast
    · have htype : '/' ∉ type.toList := fun hmem => (hplain _ hmem).2.2.1 rfl
      simp [hfront, htype]
  refine ⟨typeOfFileName_iff_announces.mpr ⟨htype, ?_⟩, before ++ (front ++ type), ?_⟩
  · rw [FilePath.name_eq_of_isLast (FilePath.isLast_append hbefore hname),
      Text.lower_eq_self_of_append hlower]
    exact ⟨front, hclosed, .inl rfl⟩
  · exact String.append_assoc.symm

theorem exists_matches_of_typeOfFileName {path type stem : String} (hplain : FilePath.IsPlain path)
    (hlower : Text.lower path = path) (htype : typeOfFileName (some path) = some type)
    (hending : path = stem ++ ".ubml.yaml") : ∃ pattern ∈ ofType type, Matches pattern path := by
  obtain ⟨before, name, hbefore, hname, rfl⟩ := hplain.exists_last
  obtain ⟨hknown, hannounces⟩ := typeOfFileName_iff_announces.mp htype
  rw [FilePath.name_eq_of_isLast (FilePath.isLast_append hbefore hname),
    Text.lower_eq_self_of_append hlower] at hannounces
  obtain ⟨front, hfront, rfl | rfl⟩ := hannounces
  · have hstar : '*' ∉ type.toList := fun hmem => (plain_of_mem_documentTypes hknown _ hmem).2.1 rfl
    refine (matches_ofType_iff hstar).mpr ⟨before, front, hbefore, hfront, ?_, rfl⟩
    intro hslash
    exact hname.2.2 (by simp [hslash])
  · rw [← String.append_assoc] at hending
    exact absurd hending.symm (append_ending_ne _ _)

/-- In small letters, exactly those recognised files match a pattern whose names have the long ending,
and every pattern matched is one for the type of the file. -/
theorem filePatterns_match_long_ending {path : String} (hplain : FilePath.IsPlain path)
    (hlower : Text.lower path = path) :
    ((∃ pattern ∈ filePatterns, Matches pattern path) ↔
      isModelFile path = true ∧ ∃ stem, path = stem ++ ".ubml.yaml") ∧
    ∀ pattern ∈ filePatterns, Matches pattern path →
      ∃ type, typeOfFileName (some path) = some type ∧ pattern ∈ ofType type := by
  refine ⟨⟨?_, ?_⟩, ?_⟩
  · rintro ⟨pattern, hpattern, hmatches⟩
    obtain ⟨type, hknown, hpattern⟩ := mem_filePatterns_iff.mp hpattern
    obtain ⟨htype, hending⟩ := typeOfFileName_of_matches hlower hknown hpattern hmatches
    exact ⟨by rw [isModelFile, htype, Option.isSome_some], hending⟩
  · rintro ⟨hmodel, stem, hending⟩
    obtain ⟨type, htype⟩ := Option.isSome_iff_exists.mp hmodel
    obtain ⟨pattern, hpattern, hmatches⟩ :=
      exists_matches_of_typeOfFileName hplain hlower htype hending
    have hknown := (typeOfFileName_iff_announces.mp htype).1
    exact ⟨pattern, mem_filePatterns_iff.mpr ⟨type, hknown, hpattern⟩, hmatches⟩
  · intro pattern hpattern hmatches
    obtain ⟨type, hknown, hpattern⟩ := mem_filePatterns_iff.mp hpattern
    exact ⟨type, (typeOfFileName_of_matches hlower hknown hpattern hmatches).1, hpattern⟩

theorem filePatterns_match_sales : FilePath.IsPlain "docs/v2/sales.process.ubml.yaml" ∧
    Text.lower "docs/v2/sales.process.ubml.yaml" = "docs/v2/sales.process.ubml.yaml" ∧
      (∃ pattern ∈ filePatterns, Matches pattern "docs/v2/sales.process.ubml.yaml") ∧
        Matches "**/*.process.ubml.yaml" "docs/v2/sales.process.ubml.yaml" ∧
          ∃ type, typeOfFileName (some "docs/v2/sales.process.ubml.yaml") = some type ∧
            "**/*.process.ubml.yaml" ∈ ofType type := by
  have hplain : FilePath.IsPlain "docs/v2/sales.process.ubml.yaml" :=
    ⟨["docs", "v2", "sales.process.ubml.yaml"], by decide, by decide, by decide⟩
  have hlower : Text.lower "docs/v2/sales.process.ubml.yaml" = "docs/v2/sales.process.ubml.yaml" := by
    decide +kernel
  have hmatches : Matches "**/*.process.ubml.yaml" "docs/v2/sales.process.ubml.yaml" := by
    show Fits (.directories :: .run :: ".process.ubml.yaml".toList.map .char)
      ("docs/v2/".toList ++ ("sales".toList ++ ".process.ubml.yaml".toList))
    exact .directories (.inr ⟨"docs/v2".toList, rfl⟩) (.run (by decide) (fits_word_iff.mpr rfl))
  obtain ⟨hiff, hbelongs⟩ := filePatterns_match_long_ending hplain hlower
  exact ⟨hplain, hlower, hiff.mpr ⟨by decide +kernel, "docs/v2/sales.process", by decide⟩, hmatches,
    hbelongs _ (by decide) hmatches⟩

/-- A file with the short ending is recognised although no pattern matches it. -/
theorem filePatterns_miss_short_ending : FilePath.IsPlain "docs/sales.process.ubml.yml" ∧
    Text.lower "docs/sales.process.ubml.yml" = "docs/sales.process.ubml.yml" ∧
      isModelFile "docs/sales.process.ubml.yml" = true ∧
        ∀ pattern ∈ filePatterns, ¬ Matches pattern "docs/sales.process.ubml.yml" := by
  have hlower : Text.lower "docs/sales.process.ubml.yml" = "docs/sales.process.ubml.yml" := by
    decide +kernel
  refine ⟨⟨["docs", "sales.process.ubml.yml"], by decide, by decide, by decide⟩, hlower,
    by decide +kernel, fun pattern hpattern hmatches => ?_⟩
  obtain ⟨type, hknown, hpattern⟩ := mem_filePatterns_iff.mp hpattern
  obtain ⟨_, stem, hending⟩ := typeOfFileName_of_matches hlower hknown hpattern hmatches
  exact append_ending_ne stem "docs/sales.process" hending.symm

end BusinessModel
