import BusinessModel.Document.Pointer

/-!
Pointers as lists of segments: a pointer read piece by piece gives back the segments that it was
made of, since the writing of a segment holds no slash and can be undone.
-/

namespace BusinessModel.Pointer

@[simp] theorem ofSegments_nil : ofSegments [] = "" := by
  simp [ofSegments]

theorem ofSegments_cons (s : Segment) (segments : List Segment) :
    ofSegments (s :: segments) = "/" ++ escape s.text ++ ofSegments segments := by
  simp [ofSegments]

theorem ofSegments_append (segments more : List Segment) :
    ofSegments (segments ++ more) = ofSegments segments ++ ofSegments more := by
  simp [ofSegments]

/-- One more segment behind a pointer is the same as one more segment in the list. -/
theorem join_ofSegments (segments : List Segment) (s : Segment) :
    join (ofSegments segments) s = ofSegments (segments ++ [s]) := by
  rw [ofSegments_append, ofSegments_cons, ofSegments_nil, join, String.append_empty,
    String.append_assoc]

/-- A pointer made segment by segment is the one along all of them. -/
theorem foldl_join (base segments : List Segment) :
    segments.foldl join (ofSegments base) = ofSegments (base ++ segments) := by
  induction segments generalizing base with
  | nil => rw [List.foldl_nil, List.append_nil]
  | cons s segments ih =>
    rw [List.foldl_cons, join_ofSegments, ih, List.append_assoc, List.singleton_append]

/-- A written segment holds no slash. -/
theorem slash_notMem_escape (s : String) : '/' ∉ (escape s).toList := by
  intro hslash
  rw [escape, String.toList_ofList, List.mem_flatMap] at hslash
  obtain ⟨c, _, hc⟩ := hslash
  unfold escapeChar at hc
  by_cases htilde : c = '~'
  · simp [htilde] at hc
  · by_cases heq : c = '/'
    · simp [heq] at hc
    · simp [htilde, heq] at hc
      exact heq hc.symm

/-- A segment is written as it is unless a tilde shows that it is not. -/
theorem escape_eq_self {s : String}
    (h : '~' ∉ (escape s).toList ∨ '~' ∉ s.toList ∧ '/' ∉ s.toList) : escape s = s := by
  have hplain : ∀ c ∈ s.toList, c ≠ '~' ∧ c ≠ '/' := by
    intro c hc
    rcases h with h | ⟨htilde, hslash⟩
    · rw [escape, String.toList_ofList, List.mem_flatMap] at h
      constructor
      · rintro rfl
        exact h ⟨_, hc, by decide⟩
      · rintro rfl
        exact h ⟨_, hc, by decide⟩
    · exact ⟨fun heq => htilde (heq ▸ hc), fun heq => hslash (heq ▸ hc)⟩
  have hchars (cs : List Char) (hcs : ∀ c ∈ cs, c ≠ '~' ∧ c ≠ '/') :
      cs.flatMap escapeChar = cs := by
    induction cs with
    | nil => rfl
    | cons c cs ih =>
      obtain ⟨htilde, hslash⟩ := hcs c List.mem_cons_self
      rw [List.flatMap_cons, ih fun d hd => hcs d (List.mem_cons_of_mem _ hd)]
      simp [escapeChar, htilde, hslash]
  rw [escape, hchars _ hplain, String.ofList_toList]

theorem exists_cons_piecesFrom (cs : List Char) :
    ∃ piece pieces, piecesFrom cs = piece :: pieces := by
  cases cs with
  | nil => exact ⟨[], [], rfl⟩
  | cons c rest =>
    rw [piecesFrom]
    split
    · exact ⟨_, _, rfl⟩
    · split <;> exact ⟨_, _, rfl⟩

/-- The pieces before a slash come before those behind it. -/
theorem piecesFrom_slash (front rest : List Char) :
    piecesFrom (front ++ '/' :: rest) = piecesFrom front ++ piecesFrom rest := by
  induction front with
  | nil => simp [piecesFrom]
  | cons c front ih =>
    obtain ⟨piece, pieces, hpieces⟩ := exists_cons_piecesFrom front
    rw [List.cons_append, piecesFrom, piecesFrom, ih, hpieces]
    split <;> rfl

theorem piecesFrom_of_notMem {piece : List Char} (hpiece : '/' ∉ piece) :
    piecesFrom piece = [piece] := by
  induction piece with
  | nil => rfl
  | cons c piece ih =>
    rw [List.mem_cons, not_or] at hpiece
    have hc : (c == '/') = false := by simpa using Ne.symm hpiece.1
    rw [piecesFrom, hc, if_neg Bool.false_ne_true, ih hpiece.2]

/-- A piece without slashes comes before those behind the slash that ends it. -/
theorem piecesFrom_append_slash {piece : List Char} (hpiece : '/' ∉ piece) (rest : List Char) :
    piecesFrom (piece ++ '/' :: rest) = piece :: piecesFrom rest := by
  rw [piecesFrom_slash, piecesFrom_of_notMem hpiece, List.singleton_append]

private theorem piecesFrom_ofSegments {piece : List Char} (hpiece : '/' ∉ piece)
    (segments : List Segment) :
    piecesFrom (piece ++ (ofSegments segments).toList) =
      piece :: segments.map fun s => (escape s.text).toList := by
  induction segments generalizing piece with
  | nil => simpa using piecesFrom_of_notMem hpiece
  | cons s segments ih =>
    have hsplit : piece ++ (ofSegments (s :: segments)).toList =
        piece ++ '/' :: ((escape s.text).toList ++ (ofSegments segments).toList) := by
      simp [ofSegments_cons, String.toList_append]
    rw [hsplit, piecesFrom_append_slash hpiece, ih (slash_notMem_escape s.text), List.map_cons]

/-- The pieces of a pointer are the segments as written, behind the empty piece before the first
slash. -/
theorem pieces_ofSegments (segments : List Segment) :
    pieces (ofSegments segments) = "" :: segments.map fun s => escape s.text := by
  have hpieces := piecesFrom_ofSegments (List.not_mem_nil (a := '/')) segments
  rw [List.nil_append] at hpieces
  simp [pieces, hpieces]

/-! ### Undoing the writing of a segment -/

/-- What is left of the writing of a character once slashes are read back. -/
private def tildeChar (c : Char) : List Char := if c == '~' then ['~', '0'] else [c]

theorem replacePair_cons_of_ne {a b c x : Char} (hx : x ≠ a) (rest : List Char) :
    replacePair a b c (x :: rest) = x :: replacePair a b c rest := by
  cases rest with
  | nil => simp [replacePair]
  | cons y rest => simp [replacePair, hx]

private theorem replacePair_slash (cs : List Char) :
    replacePair '~' '1' '/' (cs.flatMap escapeChar) = cs.flatMap tildeChar := by
  induction cs with
  | nil => rfl
  | cons c cs ih =>
    rw [List.flatMap_cons, List.flatMap_cons]
    by_cases htilde : c = '~'
    · -- The pair `~0` is no pair for a slash, and its zero starts none.
      subst htilde
      have hzero := replacePair_cons_of_ne (a := '~') (b := '1') (c := '/') (x := '0') (by decide)
        (cs.flatMap escapeChar)
      simp [escapeChar, tildeChar, replacePair, hzero, ih]
    · by_cases hslash : c = '/'
      · subst hslash
        simp [escapeChar, tildeChar, replacePair, ih]
      · have hplain : escapeChar c = [c] := by simp [escapeChar, htilde, hslash]
        have hkept : tildeChar c = [c] := by simp [tildeChar, htilde]
        rw [hplain, hkept, List.singleton_append, List.singleton_append,
          replacePair_cons_of_ne htilde, ih]

private theorem replacePair_tilde (cs : List Char) :
    replacePair '~' '0' '~' (cs.flatMap tildeChar) = cs := by
  induction cs with
  | nil => rfl
  | cons c cs ih =>
    rw [List.flatMap_cons]
    by_cases htilde : c = '~'
    · subst htilde
      simp [tildeChar, replacePair, ih]
    · have hkept : tildeChar c = [c] := by simp [tildeChar, htilde]
      rw [hkept, List.singleton_append, replacePair_cons_of_ne htilde, ih]

/-- Reading a written segment gives back its text. -/
theorem unescape_escape (s : String) : unescape (escape s) = s := by
  simp [unescape, escape, replacePair_slash, replacePair_tilde]

/-- The pieces of a pointer behind the first slash are read back as the texts of its segments. -/
theorem texts_ofSegments (segments : List Segment) :
    (pieces (ofSegments segments)).tail.map unescape = segments.map Segment.text := by
  rw [pieces_ofSegments, List.tail_cons, List.map_map]
  exact List.map_congr_left fun s _ => unescape_escape s.text

/-- Pointers are equal if and only if their segments have the same texts. -/
theorem ofSegments_eq_iff {segments segments' : List Segment} :
    ofSegments segments = ofSegments segments' ↔
      segments.map Segment.text = segments'.map Segment.text := by
  constructor
  · intro h
    rw [← texts_ofSegments, h, texts_ofSegments]
  · intro h
    have hwritten (path : List Segment) :
        ofSegments path = String.join ((path.map Segment.text).map fun t => "/" ++ escape t) := by
      rw [ofSegments, List.map_map]
      rfl
    rw [hwritten, hwritten, h]

/-- The last segment of a pointer is read back as its text. -/
theorem last?_ofSegments_concat (segments : List Segment) (s : Segment) :
    last? (ofSegments (segments ++ [s])) = some s.text := by
  have hslash : '/' ∈ (ofSegments (segments ++ [s])).toList := by
    simp [ofSegments_append, ofSegments_cons, String.toList_append]
  have hne : (ofSegments (segments ++ [s])).isEmpty = false := by
    rw [Bool.eq_false_iff]
    intro hempty
    rw [String.isEmpty_iff] at hempty
    simp [hempty] at hslash
  rw [last?, hne, if_neg Bool.false_ne_true, pieces_ofSegments, List.map_append, ← List.cons_append,
    List.map_singleton, List.getLast?_concat, Option.map_some, unescape_escape]

/-- The last segment is read back as its text, if there is one. -/
theorem last?_ofSegments (segments : List Segment) :
    last? (ofSegments segments) = (segments.map Segment.text).getLast? := by
  rcases List.eq_nil_or_concat segments with rfl | ⟨above, s, rfl⟩
  · rfl
  · rw [List.concat_eq_append, last?_ofSegments_concat, List.map_append, List.map_singleton,
      List.getLast?_concat]

/-- The key of the entry whose value, or an item of whose value, stands at the end of segments. -/
def lastKey? (segments : List Segment) : Option String :=
  match segments.reverse with
  | .key name :: _ | .index _ :: .key name :: _ => some name
  | _ => none

end BusinessModel.Pointer
