import BusinessModel.Document

/-!
The entries of mappings in a document, wherever they stand, and the texts that they hold.
-/

namespace BusinessModel

/-- An entry of a mapping: its key, the pointer to it, and its value. -/
structure Entry where
  key : String
  path : String
  value : Content
deriving Repr, Inhabited

namespace Content

mutual

/-- The entries of all mappings in the content, each before those inside its value. -/
def walk (path : String) : Content → List Entry
  | .scalar _ => []
  | .sequence items => walkItems path 0 items
  | .mapping entries => walkEntries path entries

/-- The entries inside items, from an index on. -/
def walkItems (path : String) (index : Nat) : List Content → List Entry
  | [] => []
  | item :: rest =>
    walk (Pointer.join path (.index index)) item ++ walkItems path (index + 1) rest

/-- The entries of a mapping and those inside their values. -/
def walkEntries (path : String) : List (String × Content) → List Entry
  | [] => []
  | (key, value) :: rest =>
    let inner := Pointer.join path (.key key)
    ⟨key, inner, value⟩ :: (walk inner value ++ walkEntries path rest)

end

/-- The text of a scalar that is one. -/
def text? : Content → Option String
  | .scalar (.str s) => some s
  | _ => none

end Content

/-- The texts that an entry holds, with the pointers to them: that of its value, or of the items of
a sequence. -/
def Entry.texts (e : Entry) : List (String × String) :=
  match e.value with
  | .scalar (.str s) => [(e.path, s)]
  | .sequence items => items.zipIdx.filterMap fun (item, i) =>
      item.text?.map (Pointer.join e.path (.index i), ·)
  | _ => []

/-- All entries of a document. -/
def Document.entries (d : Document) : List Entry := d.content.walk ""

end BusinessModel
