import BusinessModel.Proofs.Pointer
import BusinessModel.Proofs.Schema.Place

/-!
Where references lead: to definitions of the same schema, to those of another one, and to whole
schemas. The names of the definitions are made of letters and digits.
-/

namespace BusinessModel

namespace Address

/-! ### Texts without anything to unquote -/

/-- A character of a pointer to a definition. -/
def isPlainChar (c : Char) : Bool := c.isAlphanum || c == '$' || c == '/'

theorem toNat_lt_of_isPlainChar {c : Char} (h : isPlainChar c = true) : c.toNat < 128 := by
  unfold isPlainChar Char.isAlphanum Char.isAlpha Char.isUpper Char.isLower Char.isDigit at h
  simp only [Bool.or_eq_true, Bool.and_eq_true, decide_eq_true_eq, beq_iff_eq] at h
  rcases h with ((((h | h) | h) | rfl) | rfl)
  · have hc : c.val.toNat ≤ 90 := h.2
    exact Nat.lt_of_le_of_lt hc (by decide)
  · have hc : c.val.toNat ≤ 122 := h.2
    exact Nat.lt_of_le_of_lt hc (by decide)
  · have hc : c.val.toNat ≤ 57 := h.2
    exact Nat.lt_of_le_of_lt hc (by decide)
  · decide
  · decide

/-- What holds of the plain characters among the first ones holds of all plain characters. -/
theorem of_isPlainChar {P : Char → Prop}
    (hall : ∀ n < 128, isPlainChar (Char.ofNat n) = true → P (Char.ofNat n)) {c : Char}
    (h : isPlainChar c = true) : P c := by
  have hc := hall c.toNat (toNat_lt_of_isPlainChar h)
  rw [Char.ofNat_toNat] at hc
  exact hc h

theorem percentBytes_eq {cs : List Char} (h : ∀ c ∈ cs, isPlainChar c = true) :
    percentBytes cs = cs.map fun c => UInt8.ofNat c.toNat := by
  have hbytes {c : Char} (hc : isPlainChar c = true) : bytesOf c = [UInt8.ofNat c.toNat] :=
    of_isPlainChar (P := fun c => bytesOf c = [UInt8.ofNat c.toNat]) (by decide +kernel) hc
  have hpercent {c : Char} (hc : isPlainChar c = true) : (c == '%') = false :=
    of_isPlainChar (P := fun c => (c == '%') = false) (by decide +kernel) hc
  fun_induction percentBytes cs with
  | case1 c a b rest x y _ _ hc ih =>
    rw [hpercent (h c List.mem_cons_self)] at hc
    cases hc
  | case2 c a b rest _ ih =>
    rw [ih fun d hd => h d (List.mem_cons_of_mem _ hd), hbytes (h c List.mem_cons_self)]
    rfl
  | case3 c rest _ ih =>
    rw [ih fun d hd => h d (List.mem_cons_of_mem _ hd), hbytes (h c List.mem_cons_self)]
    rfl
  | case4 => rfl

theorem decodeFrom_eq {cs seen : List Char} {fuel position : Nat}
    (h : ∀ c ∈ cs, isPlainChar c = true) (hfuel : cs.length ≤ fuel) :
    Text.decodeFrom fuel position seen (cs.map fun c => UInt8.ofNat c.toNat) =
      .ok (seen.reverse ++ cs) := by
  have hbyte {c : Char} (hc : isPlainChar c = true) :
      UInt8.ofNat c.toNat < 0x80 ∧ Char.ofNat (UInt8.ofNat c.toNat).toNat = c :=
    of_isPlainChar (P := fun c => UInt8.ofNat c.toNat < 0x80 ∧
      Char.ofNat (UInt8.ofNat c.toNat).toNat = c) (by decide +kernel) hc
  induction cs generalizing fuel position seen with
  | nil =>
    cases fuel <;> simp [Text.decodeFrom]
  | cons c rest ih =>
    obtain ⟨hlow, hback⟩ := hbyte (h c List.mem_cons_self)
    cases fuel with
    | zero => simp at hfuel
    | succ fuel =>
      rw [List.map_cons, Text.decodeFrom, if_pos hlow, hback,
        ih (fun d hd => h d (List.mem_cons_of_mem _ hd)) (by simpa using hfuel)]
      simp

/-- A text of plain characters has nothing to unquote. -/
theorem unquote_eq {text : String} (h : ∀ c ∈ text.toList, isPlainChar c = true) :
    unquote text = text := by
  simp only [unquote, percentBytes_eq h, lenientText, Text.decodeUtf8]
  rw [decodeFrom_eq h (by simp)]
  simp [Except.map]

/-! ### Addresses with a fragment -/

theorem cut_of_notMem {c : Char} {cs : List Char} (h : c ∉ cs) : cut c cs = (cs, none) := by
  induction cs with
  | nil => rfl
  | cons d rest ih =>
    rw [List.mem_cons, not_or] at h
    have hd : (d == c) = false := by simpa using Ne.symm h.1
    rw [cut, hd, if_neg Bool.false_ne_true, ih h.2]

theorem cut_append {c : Char} {front : List Char} (h : c ∉ front) (rest : List Char) :
    cut c (front ++ c :: rest) = (front, some rest) := by
  induction front with
  | nil => simp [cut]
  | cons d front ih =>
    rw [List.mem_cons, not_or] at h
    have hd : (d == c) = false := by simpa using Ne.symm h.1
    rw [List.cons_append, cut, hd, if_neg Bool.false_ne_true, ih h.2]

theorem splitScheme_append {front back : List Char} (hback : ':' ∉ back) :
    splitScheme (front ++ back) = ((splitScheme front).1, (splitScheme front).2 ++ back) := by
  unfold splitScheme
  by_cases hcolon : ':' ∈ front
  · obtain ⟨name, rest, rfl, hname⟩ := List.eq_append_cons_of_mem hcolon
    rw [List.append_assoc, List.cons_append, cut_append hname, cut_append hname]
    dsimp only
    split
    · rfl
    · simp
  · have hnone : ':' ∉ front ++ back := by simp [hcolon, hback]
    rw [cut_of_notMem hnone, cut_of_notMem hcolon]

theorem mem_of_mem_splitScheme {c : Char} {cs : List Char} (h : c ∈ (splitScheme cs).2) :
    c ∈ cs := by
  unfold splitScheme at h
  by_cases hcolon : ':' ∈ cs
  · obtain ⟨name, rest, rfl, hname⟩ := List.eq_append_cons_of_mem hcolon
    rw [cut_append hname] at h
    dsimp only at h
    split at h
    · exact List.mem_append_right _ (List.mem_cons_of_mem _ h)
    · exact h
  · rw [cut_of_notMem hcolon] at h
    exact h

/-- What is behind a number sign belongs to no host. -/
theorem takeWhile_host_append (cs back : List Char) :
    (cs ++ '#' :: back).takeWhile (fun c => c != '/' && c != '?' && c != '#') =
      cs.takeWhile fun c => c != '/' && c != '?' && c != '#' := by
  rw [List.takeWhile_append]
  split
  · next hall =>
    rw [List.takeWhile_cons_of_neg (by simp), List.append_nil]
    exact ((List.takeWhile_prefix _).eq_of_length hall).symm
  · rfl

/-- Leaving characters out adds none. -/
theorem notMem_clean {c : Char} {cs : List Char} (h : c ∉ cs) :
    c ∉ (cs.dropWhile (·.toNat ≤ 32)).filter fun c => c != '\t' && c != '\n' && c != '\r' :=
  fun hmem => h ((List.dropWhile_sublist _).subset (List.mem_filter.mp hmem).1)

/-- No character of a fragment is left out. -/
theorem clean_append {front fragment : List Char}
    (hfragment : ∀ c ∈ fragment, isPlainChar c = true) :
    ((front ++ '#' :: fragment).dropWhile (·.toNat ≤ 32)).filter
        (fun c => c != '\t' && c != '\n' && c != '\r') =
      (front.dropWhile (·.toNat ≤ 32)).filter (fun c => c != '\t' && c != '\n' && c != '\r') ++
        '#' :: fragment := by
  have hback : ('#' :: fragment).filter (fun c => c != '\t' && c != '\n' && c != '\r') =
      '#' :: fragment := by
    rw [List.filter_eq_self]
    intro c hc
    rcases List.mem_cons.mp hc with rfl | hc
    · decide
    · have hne (d : Char) (hd : isPlainChar d = false) : c ≠ d := by
        rintro rfl
        rw [hfragment c hc] at hd
        cases hd
      simp [hne '\t' (by decide), hne '\n' (by decide), hne '\r' (by decide)]
  rw [List.dropWhile_append, List.dropWhile_cons_of_neg (by decide)]
  split
  · next hempty => rw [hback, List.isEmpty_iff.mp hempty, List.filter_nil, List.nil_append]
  · rw [List.filter_append, hback]

/-- A number sign ends what comes before a fragment. -/
theorem ofChars_append {front fragment : List Char} (hfront : '#' ∉ front)
    (hfragment : ∀ c ∈ fragment, isPlainChar c = true) :
    ofChars (front ++ '#' :: fragment) = { ofChars front with fragment } := by
  have hcolon : ':' ∉ '#' :: fragment := by
    intro hmem
    rcases List.mem_cons.mp hmem with hc | hmem
    · cases hc
    · exact absurd (hfragment _ hmem) (by decide)
  have hcleaned := notMem_clean hfront
  unfold ofChars
  simp only [clean_append hfragment]
  generalize (front.dropWhile (·.toNat ≤ 32)).filter
    (fun c => c != '\t' && c != '\n' && c != '\r') = cleaned at hcleaned ⊢
  rw [splitScheme_append hcolon]
  have hrest : '#' ∉ (splitScheme cleaned).2 := fun hmem => hcleaned (mem_of_mem_splitScheme hmem)
  generalize splitScheme cleaned = parts at hrest ⊢
  obtain ⟨scheme, cs⟩ := parts
  dsimp only at hrest ⊢
  by_cases hhost : ∃ rest, cs = '/' :: '/' :: rest
  · obtain ⟨rest, rfl⟩ := hhost
    have hrest : '#' ∉ rest := by simpa using hrest
    have hbehind : '#' ∉ rest.drop
        (rest.takeWhile fun c => c != '/' && c != '?' && c != '#').length :=
      fun hmem => hrest (List.mem_of_mem_drop hmem)
    have hlength : (rest.takeWhile fun c => c != '/' && c != '?' && c != '#').length ≤
        rest.length := (List.takeWhile_sublist _).length_le
    simp only [List.cons_append, takeWhile_host_append]
    rw [List.drop_append_of_le_length hlength, cut_append hbehind, cut_of_notMem hbehind]
    rfl
  · have hnone : ∀ rest, cs ++ '#' :: fragment ≠ '/' :: '/' :: rest := by
      intro rest heq
      rcases cs with _ | ⟨a, _ | ⟨b, more⟩⟩
      · cases heq
      · cases heq
      · cases heq
        exact hhost ⟨more, rfl⟩
    have hnone' : ∀ rest, cs ≠ '/' :: '/' :: rest := fun rest heq => hhost ⟨rest, heq⟩
    split
    · next heq => exact absurd heq (hnone _)
    · dsimp only
      rw [cut_append hrest, cut_of_notMem hrest]
      rfl

theorem fragment_ofChars {cs : List Char} (h : '#' ∉ cs) : (ofChars cs).fragment = [] := by
  have hrest := fun hmem => notMem_clean h (mem_of_mem_splitScheme hmem)
  unfold ofChars
  dsimp only
  split
  · next rest heq =>
    dsimp only
    rw [cut_of_notMem]
    · rfl
    · intro hmem
      refine hrest ?_
      rw [heq]
      exact List.mem_cons_of_mem _ (List.mem_cons_of_mem _ (List.mem_of_mem_drop hmem))
  · dsimp only
    rw [cut_of_notMem hrest]
    rfl

/-- A fragment is written behind a number sign. -/
theorem toChars_eq (a : Address) (h : a.fragment ≠ []) :
    a.toChars = { a with fragment := [] }.toChars ++ '#' :: a.fragment := by
  simp [toChars, h]

/-- The base address has a host, and the text is a path from there. -/
structure IsRelative (base text : String) : Prop where
  base_ne : base ≠ ""
  text_ne : text ≠ ""
  scheme_mem : String.ofList (ofChars base.toList).scheme ∈ relativeSchemes ∧
    String.ofList (ofChars base.toList).scheme ∈ hostSchemes
  scheme_eq : (ofChars text.toList).scheme = []
  host_eq : (ofChars text.toList).host = []
  path_ne : (ofChars text.toList).path ≠ []

/-- What a path means seen from a base address: a path at the same host. -/
theorem join_eq {base text : String} (h : IsRelative base text) :
    join base text = String.ofList { ofChars text.toList with
      scheme := (ofChars base.toList).scheme
      host := (ofChars base.toList).host
      path := joinPaths (ofChars base.toList).path (ofChars text.toList).path }.toChars := by
  obtain ⟨hbase, htext, ⟨hrelative, hhosts⟩, hscheme, hhost, hpath⟩ := h
  unfold join
  generalize ofChars base.toList = b at hrelative hhosts
  generalize ofChars text.toList = a at hscheme hhost hpath
  simp [hbase, htext, hscheme, hhost, hrelative, hhosts, hpath]

section Fragment

variable {path fragment : String} (hpath : '#' ∉ path.toList)
  (hfragment : ∀ c ∈ fragment.toList, isPlainChar c = true)

include hpath hfragment

theorem ofChars_fragment :
    ofChars (path ++ "#" ++ fragment).toList =
      { ofChars path.toList with fragment := fragment.toList } := by
  have hchars : (path ++ "#" ++ fragment).toList = path.toList ++ '#' :: fragment.toList := by
    simp [String.toList_append]
  rw [hchars, ofChars_append hpath hfragment]

/-- The part of an address behind the number sign plays no role in finding out what it means. -/
theorem join_fragment {base : String} (h : IsRelative base path) (hsome : fragment ≠ "") :
    join base (path ++ "#" ++ fragment) = join base path ++ "#" ++ fragment := by
  have hchars := ofChars_fragment hpath hfragment
  have hwhole : IsRelative base (path ++ "#" ++ fragment) := by
    refine ⟨h.base_ne, by simp [h.text_ne], h.scheme_mem, ?_, ?_, ?_⟩
    · rw [hchars]
      exact h.scheme_eq
    · rw [hchars]
      exact h.host_eq
    · rw [hchars]
      exact h.path_ne
  have hcs : fragment.toList ≠ [] := by simpa using hsome
  rw [join_eq hwhole, join_eq h, hchars, toChars_eq _ hcs]
  simp only [fragment_ofChars hpath]
  rw [String.ofList_append, String.append_assoc]
  congr 1
  rw [String.ofList_cons]
  simp

/-- An address is split at the number sign; what is in front is written as usual. -/
theorem splitFragment_fragment (hnormal : String.ofList (ofChars path.toList).toChars = path) :
    splitFragment (path ++ "#" ++ fragment) = (path, fragment) := by
  have hchars := ofChars_fragment hpath hfragment
  have hfront : { ofChars path.toList with fragment := [] } = ofChars path.toList := by
    rw [← fragment_ofChars hpath]
  unfold splitFragment
  rw [if_pos (by simp [String.toList_append]), hchars]
  simp only [hfront, hnormal, String.ofList_toList]

end Fragment

/-! ### Whole addresses -/

/-- No number sign is dropped where there is none. -/
theorem dropHashes_eq {text : String} (h : text.toList.getLast? ≠ some '#') :
    dropHashes text = text := by
  have hkeep : text.toList.reverse.dropWhile (· == '#') = text.toList.reverse := by
    rw [← List.head?_reverse] at h
    cases hcs : text.toList.reverse with
    | nil => rfl
    | cons c cs =>
      rw [hcs, List.head?_cons, ne_eq, Option.some.injEq] at h
      exact List.dropWhile_cons_of_neg (by simpa using h)
  rw [dropHashes, hkeep, List.reverse_reverse, String.ofList_toList]

end Address

namespace Schema

/-- Read from the end, a list of entries has at a key what the last entry with this key has. -/
theorem lookup_reverse_of_last {α : Type} {entries : List (String × α)} {i : Nat} {key : String} {a : α}
    (h : entries[i]? = some (key, a)) (hlast : ∀ j e, i < j → entries[j]? = some e → e.1 ≠ key) :
    entries.reverse.lookup key = some a := by
  obtain ⟨hi, hentry⟩ := List.getElem?_eq_some_iff.mp h
  have hsplit : entries = entries.take i ++ (key, a) :: entries.drop (i + 1) := by
    rw [← hentry, List.getElem_cons_drop, List.take_append_drop]
  refine List.lookup_eq_some_iff.mpr ⟨(entries.drop (i + 1)).reverse, (entries.take i).reverse, ?_, ?_⟩
  · conv_lhs => rw [hsplit]
    simp
  · intro e he
    obtain ⟨k, hk⟩ := List.getElem?_of_mem (List.mem_reverse.mp he)
    rw [List.getElem?_drop] at hk
    exact bne_iff_ne.mpr (hlast _ e (by omega) hk).symm

/-- No schema behind a position has the address, number signs at the end not counted. -/
def IsLast (schemas : List (String × Value)) (i : Nat) (address : String) : Prop :=
  ∀ j e, i < j → schemas[j]? = some e → Address.dropHashes e.1 ≠ Address.dropHashes address

theorem isLast_of_nodup {schemas : List (String × Value)}
    (hnodup : (schemas.map fun e => Address.dropHashes e.1).Nodup) {i : Nat} {address : String}
    {v : Value} (h : schemas[i]? = some (address, v)) : IsLast schemas i address := by
  intro j e hj he heq
  obtain ⟨hi, hentry⟩ := List.getElem?_eq_some_iff.mp h
  obtain ⟨hlater, hentry'⟩ := List.getElem?_eq_some_iff.mp he
  have hne := List.pairwise_iff_getElem.mp hnodup i j (by simpa using hi) (by simpa using hlater) hj
  rw [List.getElem_map, List.getElem_map, hentry, hentry'] at hne
  exact hne heq.symm

/-- A registry finds a schema by its address, number signs at the end not counted, if none behind it has
the same one. -/
theorem Registry.find?_of_isLast {schemas : List (String × Value)} {i : Nat} {address : String}
    {v : Value} (h : schemas[i]? = some (address, v)) (hlast : IsLast schemas i address) :
    (Registry.ofSchemas schemas).find? (Address.dropHashes address) = some ⟨v, ⟨i, []⟩⟩ := by
  have hfound : (Registry.ofSchemas schemas).resources.lookup (Address.dropHashes address) =
      some ⟨v, ⟨i, []⟩⟩ := by
    refine lookup_reverse_of_last (i := i) ?_ fun j e hj he => ?_
    · simp [List.getElem?_map, List.getElem?_zipIdx, h]
    · rw [List.getElem?_map, List.getElem?_zipIdx, Option.map_map] at he
      obtain ⟨x, hx, rfl⟩ := Option.map_eq_some_iff.mp he
      exact hlast j x hj hx
  rw [Registry.find?, hfound]
  rfl

/-- A registry finds each of its schemas by its address, number signs at the end not counted, if these
addresses differ. -/
theorem Registry.find?_dropHashes {schemas : List (String × Value)}
    (hnodup : (schemas.map fun e => Address.dropHashes e.1).Nodup) {i : Nat} {address : String}
    {v : Value} (h : schemas[i]? = some (address, v)) :
    (Registry.ofSchemas schemas).find? (Address.dropHashes address) = some ⟨v, ⟨i, []⟩⟩ :=
  Registry.find?_of_isLast h (isLast_of_nodup hnodup h)

/-- A registry finds each of its schemas by its address. -/
theorem Registry.find?_ofSchemas {schemas : List (String × Value)}
    (hplain : ∀ e ∈ schemas, Address.dropHashes e.1 = e.1)
    (hnodup : (schemas.map (·.1)).Nodup) {i : Nat} {address : String} {v : Value}
    (h : schemas[i]? = some (address, v)) :
    (Registry.ofSchemas schemas).find? address = some ⟨v, ⟨i, []⟩⟩ := by
  have hdropped : schemas.map (fun e => Address.dropHashes e.1) = schemas.map (·.1) :=
    List.map_congr_left hplain
  have hfound := Registry.find?_dropHashes (hdropped ▸ hnodup) h
  rwa [hplain _ (List.mem_of_getElem? h)] at hfound

/-- A name that a pointer shows as it is. -/
def IsPlainName (name : String) : Prop := name ≠ "" ∧ name.toList.all Char.isAlphanum = true

namespace IsPlainName

variable {name : String} (h : IsPlainName name)

include h

theorem notMem {c : Char} (hc : c.isAlphanum = false) : c ∉ name.toList := by
  intro hmem
  rw [List.all_eq_true.mp h.2 c hmem] at hc
  cases hc

/-- The pointer to a definition has nothing to unquote. -/
theorem isPlainChar_of_mem {c : Char} (hc : c ∈ ("/$defs/" ++ name).toList) :
    Address.isPlainChar c = true := by
  rw [String.toList_append, List.mem_append] at hc
  rcases hc with hc | hc
  · exact List.all_eq_true.mp (show "/$defs/".toList.all Address.isPlainChar = true by decide) c hc
  · simp [Address.isPlainChar, List.all_eq_true.mp h.2 c hc]

theorem unescape_eq : Pointer.unescape name = name := by
  have hreplace {a b c : Char} (cs : List Char) (hcs : a ∉ cs) :
      Pointer.replacePair a b c cs = cs := by
    induction cs with
    | nil => rfl
    | cons x rest ih =>
      rw [List.mem_cons, not_or] at hcs
      rw [Pointer.replacePair_cons_of_ne (Ne.symm hcs.1), ih hcs.2]
  have htilde := h.notMem (c := '~') (by decide)
  rw [Pointer.unescape, hreplace _ htilde, hreplace _ htilde, String.ofList_toList]

theorem pieces_eq : Pointer.pieces ("$defs/" ++ name) = ["$defs", name] := by
  have hchars : ("$defs/" ++ name).toList = "$defs".toList ++ '/' :: name.toList := by
    simp [String.toList_append]
  rw [Pointer.pieces, hchars, Pointer.piecesFrom_append_slash (by decide),
    Pointer.piecesFrom_of_notMem (h.notMem (by decide))]
  simp

theorem pieces_unquote :
    Pointer.pieces (Address.unquote (String.ofList (("/$defs/" ++ name).toList.drop 1))) =
      ["$defs", name] := by
  have hchars : ("/$defs/" ++ name).toList.drop 1 = ("$defs/" ++ name).toList := by
    simp [String.toList_append]
  have hplain : ∀ c ∈ ("$defs/" ++ name).toList, Address.isPlainChar c = true := by
    intro c hc
    apply h.isPlainChar_of_mem
    rw [← hchars] at hc
    exact List.mem_of_mem_drop hc
  rw [hchars, String.ofList_toList, Address.unquote_eq hplain, h.pieces_eq]

end IsPlainName

/-- What a schema has at a key is part of the same registered schema. -/
theorem Located.root_of_get? {s inner : Located} {key : String} (h : s.get? key = some inner) :
    inner.place.root = s.place.root := by
  obtain ⟨⟨k, found⟩, hfind, rfl⟩ := Option.map_eq_some_iff.mp h
  obtain ⟨i, v, _, rfl⟩ := Located.mem_entries_iff.mp (List.mem_of_find?_eq_some hfind)
  rfl

theorem stepInto_of_get? {pointer step : String} {s inner : Located}
    (hstep : Pointer.unescape step = step) (h : s.get? step = some inner) :
    stepInto pointer step s = .ok (step, inner) := by
  have hmap : ∃ entries, s.value = .map entries := by
    cases hvalue : s.value with
    | map entries => exact ⟨entries, rfl⟩
    | scalar x => simp [Located.get?, Located.entries, hvalue, Value.entries] at h
    | list items => simp [Located.get?, Located.entries, hvalue, Value.entries] at h
  obtain ⟨entries, hentries⟩ := hmap
  simp only [stepInto, hentries, hstep, h]

theorem followSteps_definition {scope : Scope} {name : String} {root table target : Located}
    (hname : IsPlainName name) (htable : root.get? "$defs" = some table)
    (htarget : table.get? name = some target) (hid : idOf? target.value = .ok none)
    (pointer : String) :
    followSteps pointer ["$defs", name] [] root scope = .ok (target, scope) := by
  have hfirst : stepInto pointer "$defs" root = .ok ("$defs", table) :=
    stepInto_of_get? (by decide) htable
  have hsecond : stepInto pointer name table = .ok (name, target) :=
    stepInto_of_get? hname.unescape_eq htarget
  have henter : scope.enter target.value = .ok scope := by
    simp [Scope.enter, hid, bind, Except.bind, pure, Except.pure]
  have houtside : leadsToSchema ["$defs"] = false := by decide
  have hinside : leadsToSchema ["$defs", name] = true := rfl
  simp [followSteps, hfirst, hsecond, houtside, hinside, henter, bind, Except.bind]

section Definition

variable {r : Registry} {scope : Scope} {name : String} {root : Located}
  {definitions : List (String × Value)} {v : Value} (hname : IsPlainName name)
  (hdefinitions : root.value.get? "$defs" = some (.object definitions))
  (hv : definitions.lookup name = some v) (hid : idOf? v = .ok none)

include hname hdefinitions hv hid

theorem follow_definition {reference address : String} (hroot : r.find? address = some root)
    (hresolve : scope.resolve reference = (address, "/$defs/" ++ name)) :
    ∃ target, follow r scope reference = .ok (target, scope.moveTo address) ∧
      target.value = v ∧ target.place.root = root.place.root := by
  obtain ⟨table, htable, htablev⟩ := Located.exists_get? hdefinitions
  obtain ⟨target, htarget, rfl⟩ : ∃ target, table.get? name = some target ∧ target.value = v :=
    Located.exists_get? (by rw [htablev, Value.get?_object, hv])
  refine ⟨target, ?_, rfl, (Located.root_of_get? htarget).trans (Located.root_of_get? htable)⟩
  have hhead : (("/$defs/" ++ name).toList.head? == some '/') = true := by
    simp [String.toList_append]
  unfold follow
  simp only [hresolve, hroot, hhead, if_true]
  rw [hname.pieces_unquote]
  exact followSteps_definition hname htable htarget hid _

/-- A reference to a definition of the schema in whose scope it stands. -/
theorem follow_own (hroot : r.find? scope.base = some root) :
    ∃ target, follow r scope ("#/$defs/" ++ name) = .ok (target, scope.moveTo scope.base) ∧
      target.value = v ∧ target.place.root = root.place.root := by
  have hchars : ("#/$defs/" ++ name).toList = '#' :: ("/$defs/" ++ name).toList := by
    simp [String.toList_append]
  refine follow_definition hname hdefinitions hv hid hroot ?_
  simp only [Scope.resolve, hchars, String.ofList_toList]

/-- A reference to a definition of another schema. -/
theorem follow_shared {path address : String} (hpath : '#' ∉ path.toList)
    (hrelative : Address.IsRelative scope.base path)
    (haddress : Address.join scope.base path = address) (hnumber : '#' ∉ address.toList)
    (hnormal : String.ofList (Address.ofChars address.toList).toChars = address)
    (hroot : r.find? address = some root) :
    ∃ target, follow r scope (path ++ "#" ++ ("/$defs/" ++ name)) =
      .ok (target, scope.moveTo address) ∧ target.value = v ∧
        target.place.root = root.place.root := by
  have hplain : ∀ c ∈ ("/$defs/" ++ name).toList, Address.isPlainChar c = true :=
    fun c hc => hname.isPlainChar_of_mem hc
  refine follow_definition hname hdefinitions hv hid hroot ?_
  unfold Scope.resolve
  split
  · next rest heq =>
    exfalso
    cases hchars : path.toList with
    | nil => exact hrelative.text_ne (by simpa using hchars)
    | cons c cs =>
      rw [String.toList_append, String.toList_append, hchars] at heq
      rw [hchars, (List.cons.inj heq).1] at hpath
      exact hpath List.mem_cons_self
  · rw [Address.join_fragment hpath hplain hrelative (by simp), haddress,
      Address.splitFragment_fragment hnumber hplain hnormal]

end Definition

/-- A reference to a whole schema. -/
theorem follow_root {r : Registry} {scope : Scope} {reference address : String} {root : Located}
    (hresolve : scope.resolve reference = (address, "")) (hroot : r.find? address = some root) :
    follow r scope reference = .ok (root, scope.moveTo address) := by
  unfold follow
  simp only [hresolve, hroot]
  rfl

end Schema

end BusinessModel
