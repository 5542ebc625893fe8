import BusinessModel.Document.Load
import BusinessModel.Text.Keyed
import BusinessModel.Yaml.Written

/-!
Writing values as documents.
-/

namespace BusinessModel

/-- How a value is written. -/
structure SerializeOptions where
  indent : Int := 2
  lineWidth : Int := 120
  trailingNewline : Bool := true
  sortKeys : Bool := false
  /-- The quotation marks of texts that are not keys; else they depend on the text. -/
  quoting : Option Yaml.Quoting := none
deriving DecidableEq, Repr, Inhabited

namespace SerializeOptions

/-- The width of lines if the one asked for is too narrow. -/
def usualWidth : Int := 80

/-- The narrowest width. -/
def leastWidth : Int := 5

/-- The options as a format. -/
def format (o : SerializeOptions) : Yaml.Format :=
  { entryStep := o.indent, itemStep := o.indent + 2, dashOffset := o.indent
    width := if o.lineWidth < leastWidth then usualWidth else o.lineWidth
    quoting := o.quoting }

end SerializeOptions

namespace Content

/-- Entries in the order of their keys. -/
def sortEntries (entries : List (String × Content)) : List (String × Content) :=
  entries.mergeSort fun a b => a.1 ≤ b.1

mutual

/-- A value as content to be written: with texts as keys, of equal ones the first place and the last
value, and in the order of the keys if that is asked for. -/
def arranged (sortKeys : Bool) : Value → Content
  | .scalar s => .scalar s
  | .list items => .sequence (arrangedItems sortKeys items)
  | .map entries =>
    let entries := arrangedEntries sortKeys entries
    .mapping (Keyed.ofList (if sortKeys then sortEntries entries else entries))

/-- Values as items to be written. -/
def arrangedItems (sortKeys : Bool) : List Value → List Content
  | [] => []
  | v :: rest => arranged sortKeys v :: arrangedItems sortKeys rest

/-- Entries of a value as entries to be written. -/
def arrangedEntries (sortKeys : Bool) : List (Value × Value) → List (String × Content)
  | [] => []
  | (k, v) :: rest => (k.text, arranged sortKeys v) :: arrangedEntries sortKeys rest

end

end Content

/-- The text without the line feed at its end. -/
def dropNewline (s : String) : String :=
  match s.toList.reverse with
  | '\n' :: rest => String.ofList rest.reverse
  | _ => s

/-- The text of a document that holds a value. -/
def Value.serialize (o : SerializeOptions) (v : Value) : String :=
  let text := o.format.document (Content.arranged o.sortKeys v)
  if o.trailingNewline then text else dropNewline text

end BusinessModel
