import BusinessModel.Document.Content
import BusinessModel.Text.Case

/-!
The types of documents, recognised by the name of the file or by the keys at the top.
-/

namespace BusinessModel

/-- The document types with the keys that are typical of each, in the order in which they are tried.
A type whose keys may occur inside a more special document comes behind that one. -/
def contentSignatures : List (String × List String) :=
  [("process", ["processes"]),
   ("actors", ["actors", "skills", "personas", "resourcePools"]),
   ("entities", ["entities", "locations"]),
   ("hypotheses", ["hypothesisTrees"]),
   ("metrics", ["kpis", "metrics", "roiAnalyses"]),
   ("scenarios", ["scenarios"]),
   ("strategy", ["valueStreams", "capabilities", "products", "services", "portfolios"]),
   ("mining", ["miningSources"]),
   ("views", ["views"]),
   ("links", ["links"]),
   ("glossary", ["terms", "glossary"]),
   ("workspace", ["organization", "documents"])]

/-- The known document types. -/
def documentTypes : List String := contentSignatures.map (·.1)

/-- The endings of the names of model files. -/
def fileSuffixes : List String := [".ubml.yaml", ".ubml.yml"]

namespace FilePath

/-- The components of a path that name something. -/
def components (path : String) : List String :=
  (Pointer.pieces path).filter fun s => s != "" && s != "."

/-- The last component of a path; empty if there is none. -/
def name (path : String) : String := (components path).getLastD ""

/-- The components behind the ones given, last first: one that leads upwards takes the one before it
away. -/
def resolveFrom (above : List String) : List String → List String
  | [] => above.reverse
  | ".." :: rest => resolveFrom (above.drop 1) rest
  | name :: rest => resolveFrom (name :: above) rest

/-- The components of a path without those that lead upwards. -/
def resolve (path : String) : List String := resolveFrom [] (components path)

/-- The path without components that name nothing. -/
def normalize (path : String) : String :=
  let body := "/".intercalate (components path)
  if path.toList.head? == some '/' then
    let slashes := path.toList.takeWhile (· == '/')
    (if slashes.length == 2 then "//" else "/") ++ body
  else if body.isEmpty then "." else body

end FilePath

/-- The characters before an ending, if the text has it. -/
def dropSuffix? (cs ending : List Char) : Option (List Char) :=
  if ending.isSuffixOf cs then some (cs.take (cs.length - ending.length)) else none

/-- The characters behind the last point, or all of them. -/
def afterLastPoint (cs : List Char) : List Char := (cs.reverse.takeWhile (· != '.')).reverse

/-- The type that a file name announces: it stands before the ending, behind a point or at the start
of the name. Case does not matter, nor do the directories. -/
def typeOfFileName (file : Option String) : Option String :=
  match file with
  | none => none
  | some file =>
    let name := (Text.lower (FilePath.name file)).toList
    fileSuffixes.findSome? fun suffix =>
      match dropSuffix? name suffix.toList with
      | none => none
      | some stem =>
        let candidate := String.ofList (afterLastPoint stem)
        if documentTypes.contains candidate then some candidate else none

/-- The first type that one of the keys is typical of. -/
def typeOfKeys (signatures : List (String × List String)) (keys : List String) : Option String :=
  (signatures.find? fun s => s.2.any keys.contains).map (·.1)

/-- The type that the top of a document shows; only mappings show one. -/
def typeOfContent (signatures : List (String × List String)) (c : Content) : Option String :=
  match c with
  | .mapping entries => typeOfKeys signatures (entries.map (·.1))
  | _ => none

/-- Whether the name of a file announces a document type. -/
def isModelFile (file : String) : Bool := (typeOfFileName (some file)).isSome

/-- Patterns of the names of model files. -/
def filePatterns : List String :=
  documentTypes.flatMap fun t => ["**/*." ++ t ++ ".ubml.yaml", "**/" ++ t ++ ".ubml.yaml"]

end BusinessModel
