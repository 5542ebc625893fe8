import BusinessModel.Schema.Registry

/-!
Reading the blocks of metadata in schemas. Nothing checks their form beforehand, so every step says
what is wrong with a block that does not have it.
-/

namespace BusinessModel.Schema

/-- What is wrong with a block of metadata. -/
inductive Malformed where
  /-- Entries are asked of something that is no mapping. -/
  | noEntries
  /-- Something of a type that has no use at this place. -/
  | wrongType
  /-- A value that has no use at this place, with a report on it. -/
  | invalid (report : String)
  | missingKey (key : Value)
  /-- A number without an integer value is asked for one. -/
  | infinite
  /-- The letters in front of identifiers make no pattern. -/
  | badLetters
  /-- A reference cannot be followed. -/
  | reference (fault : Fault)
deriving Inhabited

namespace Block

/-- The entries of a block. One that is absent or empty has none. -/
def entries (block : Option Value) : Except Malformed (List (Value × Value)) :=
  match block with
  | none => .ok []
  | some (.map es) => .ok es
  | some v => if v.isSet then .error .noEntries else .ok []

/-- The members of a collection: the items of a list, the keys of a mapping, the characters of a
text. One that is absent or empty has none. -/
def members (collection : Option Value) : Except Malformed (List Value) :=
  match collection with
  | none => .ok []
  | some (.list vs) => .ok vs
  | some (.map es) => .ok (es.map (·.1))
  | some (.str s) => .ok (s.toList.map fun c => .str (String.singleton c))
  | some v => if v.isSet then .error .wrongType else .ok []

/-- Whether a word occurs in a text. -/
def hasWord (word : List Char) : List Char → Bool
  | [] => word.isEmpty
  | c :: rest => word.isPrefixOf (c :: rest) || hasWord word rest

/-- Whether a collection contains a word: as a key, an item or a part of a text. -/
def contains (v : Value) (word : String) : Except Malformed Bool :=
  match v with
  | .map es => .ok (Value.lookup word es).isSome
  | .list vs => .ok (vs.any (Value.str word).same)
  | .str s => .ok (hasWord word.toList s.toList)
  | _ => .error .wrongType

/-- The entries of a block that contains a word; `none` if it is absent, empty or does not. -/
def entriesWith? (block : Option Value) (word : String) :
    Except Malformed (Option (List (Value × Value))) := do
  match block with
  | none => return none
  | some v =>
    if !v.isSet then return none
    if !(← contains v word) then return none
    match v with
    | .map es => return some es
    | _ => throw .wrongType

/-- The first member of a collection that is not empty. -/
def first (v : Value) : Except Malformed Value :=
  match v with
  | .list (x :: _) => .ok x
  | .str s =>
    match s.toList with
    | c :: _ => .ok (.str (String.singleton c))
    | [] => .error .wrongType
  | .map es =>
    match Value.lookupScalar (.int 0) es with
    | some x => .ok x
    | none => .error (.missingKey (.int 0))
  | _ => .error .wrongType

/-- The whole number of a value: of a number without what is behind the point. -/
def wholeNumber (v : Value) : Except Malformed Int :=
  match v with
  | .int n => .ok n
  | .bool b => .ok b.toNat
  | .str s => (integerOfText s).mapError .invalid
  | .float x =>
    match x.fraction? with
    | some (n, d) => .ok (n.tdiv d)
    | none =>
      if x == .nan then .error (.invalid "cannot convert float NaN to integer")
      else .error .infinite
  | _ => .error .wrongType

/-- The text of an entry, or another text if it is absent. -/
def textOr (es : List (Value × Value)) (key default : String) : String :=
  ((Value.lookup key es).map Value.text).getD default

end Block

end BusinessModel.Schema
