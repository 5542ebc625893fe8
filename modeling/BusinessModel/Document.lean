import BusinessModel.Diagnostic.Code
import BusinessModel.Document.Content
import BusinessModel.Document.SourceMap

/-!
Documents: their content, what is known about them, and where their parts were written.
-/

namespace BusinessModel

/-- A document. Its version is what it declares of itself. Documents with the same serial number are
one and the same, and others are not, even if nothing else tells them apart. -/
structure Document where
  serial : Nat := 0
  content : Content
  version : String := "1.0"
  type : Option String := none
  filename : Option String := none
  sourceMap : SourceMap := {}
deriving Repr, Inhabited

namespace Document

/-- The file that a text is from, as reports name it. -/
def reportedFile (filename : Option String) : String :=
  match filename with
  | some name => if name.isEmpty then "unknown" else name
  | none => "unknown"

/-- The file of a document, as reports name it. -/
def filepath (d : Document) : String := reportedFile d.filename

/-- The documents with their positions in the list as serial numbers. -/
def numbered (ds : List Document) : List Document :=
  ds.zipIdx.map fun (d, i) => { d with serial := i }

/-- Where the part at a pointer was written. -/
def location? (d : Document) (path : String) : Option Span := d.sourceMap.get? path

end Document

/-- Something to report about a text that was to be a document. -/
structure Issue where
  code : Code
  message : String
  line : Option Int := none
  column : Option Int := none
deriving DecidableEq, Repr, Inhabited

/-- What came of reading a text. -/
structure ParseResult where
  document : Option Document := none
  errors : List Issue := []
  warnings : List Issue := []
deriving Inhabited

namespace ParseResult

/-- Whether there is a document and nothing is wrong with it. -/
def ok (r : ParseResult) : Bool := r.document.isSome && r.errors.isEmpty

end ParseResult

end BusinessModel
