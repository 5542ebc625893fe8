import BusinessModel.Document.Pointer
import BusinessModel.Value

/-!
The content of a document: a tree of scalars, sequences and mappings whose keys are texts. A mapping
is a list of entries, and a key may occur in it more than once.
-/

namespace BusinessModel

/-- The content of a document or of a part of it. -/
inductive Content where
  | scalar (value : Scalar)
  | sequence (items : List Content)
  | mapping (entries : List (String × Content))
deriving Repr, Inhabited

namespace Content

/-- Adds an entry to a mapping; a key that is there keeps its place and takes the new value. -/
def putEntry (entries : List (Value × Value)) (key : String) (v : Value) : List (Value × Value) :=
  match entries with
  | [] => [(.str key, v)]
  | (k, w) :: rest =>
    match k with
    | .scalar (.str s) => if s == key then (k, v) :: rest else (k, w) :: putEntry rest key v
    | _ => (k, w) :: putEntry rest key v

mutual

/-- The content as a value. Of a repeated key the first place and the last value count. -/
def toValue : Content → Value
  | .scalar s => .scalar s
  | .sequence items => .list (itemValues items)
  | .mapping entries => .map (entryValues [] entries)

/-- The values of items. -/
def itemValues : List Content → List Value
  | [] => []
  | c :: rest => c.toValue :: itemValues rest

/-- The entries as those of a value, behind the entries already there. -/
def entryValues (before : List (Value × Value)) : List (String × Content) → List (Value × Value)
  | [] => before
  | (k, c) :: rest => entryValues (putEntry before k c.toValue) rest

end

mutual

/-- A value as content: every key becomes its text. -/
def ofValue : Value → Content
  | .scalar s => .scalar s
  | .list items => .sequence (ofItems items)
  | .map entries => .mapping (ofEntries entries)

/-- Values as items. -/
def ofItems : List Value → List Content
  | [] => []
  | v :: rest => ofValue v :: ofItems rest

/-- Entries of a value as entries of content. -/
def ofEntries : List (Value × Value) → List (String × Content)
  | [] => []
  | (k, v) :: rest => (k.text, ofValue v) :: ofEntries rest

end

/-- The keys of a mapping, in order; other content has none. -/
def keys : Content → List String
  | .mapping entries => entries.map (·.1)
  | _ => []

/-- The content at the first entry with a key. -/
def get? (c : Content) (key : String) : Option Content :=
  match c with
  | .mapping entries => entries.lookup key
  | _ => none

end Content

end BusinessModel
