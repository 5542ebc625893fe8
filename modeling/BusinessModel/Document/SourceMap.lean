import Std.Data.HashMap
import Std.Data.HashSet

/-!
Where the parts of a document were written.
-/

namespace BusinessModel

/-- A position in a file. Lines and columns count from one. -/
structure Span where
  file : String
  line : Int
  column : Int
deriving DecidableEq, Repr, Inhabited

/-- The positions of the parts of a document, by their pointers; the latest entry comes first. -/
structure SourceMap where
  history : List (String × Span) := []
deriving DecidableEq, Repr, Inhabited

namespace SourceMap

/-- Records a position. It replaces an earlier one of the same pointer. -/
def add (m : SourceMap) (path : String) (span : Span) : SourceMap := ⟨(path, span) :: m.history⟩

/-- The recorded position of a pointer. -/
def find? (m : SourceMap) (path : String) : Option Span := m.history.lookup path

/-- The position of a pointer. A lone slash stands for the root. -/
def get? (m : SourceMap) (path : String) : Option Span := m.find? (if path == "/" then "" else path)

/-- Whether a position is recorded for exactly this pointer. -/
def contains (m : SourceMap) (path : String) : Bool := (m.find? path).isSome

/-- The texts without those that have occurred before or are in `seen`. -/
def firsts (seen : Std.HashSet String) : List String → List String
  | [] => []
  | p :: rest => if seen.contains p then firsts seen rest else p :: firsts (seen.insert p) rest

/-- The pointers with a position, in the order in which they were first recorded. -/
def paths (m : SourceMap) : List String := firsts ∅ (m.history.reverse.map (·.1))

/-- The pointers with their positions, in the order in which they were first recorded. -/
def positions (m : SourceMap) : List (String × Span) :=
  let latest := Std.HashMap.ofList m.history.reverse
  m.paths.filterMap fun p => latest[p]?.map (p, ·)

end SourceMap

end BusinessModel
