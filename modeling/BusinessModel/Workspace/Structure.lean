import BusinessModel.Diagnostic
import BusinessModel.Document

/-!
Advice on a set of documents as a whole: which documents it lacks. None of it makes the set invalid.
-/

namespace BusinessModel.Workspace

/-- The advice, and the files of each document type, in the order in which the types first occur. -/
structure Structure where
  warnings : List Diagnostic := []
  documentTypes : List (String × List String) := []
deriving DecidableEq, Repr, Inhabited

/-- The number of documents from which on a glossary is suggested. -/
def glossaryThreshold : Nat := 5

/-- The files with a further one for a type. -/
def addFile (files : List (String × List String)) (type file : String) :
    List (String × List String) :=
  match files with
  | [] => [(type, [file])]
  | (t, fs) :: rest =>
    if t == type then (t, fs ++ [file]) :: rest else (t, fs) :: addFile rest type file

/-- The files of each document type. -/
def filesByType (documents : List Document) : List (String × List String) :=
  documents.foldl (fun files d =>
    match d.type with
    | some type => if type.isEmpty then files else addFile files type d.filepath
    | none => files) []

/-- A warning with a suggestion. -/
def advice (code : Code) (message suggestion : String) : Diagnostic :=
  { code, message, suggestion := some suggestion, severity := .warning }

/-- The advice on a set of documents. -/
def structureOf (documents : List Document) : Structure :=
  let files := filesByType documents
  let has (type : String) : Bool := (files.lookup type).isSome
  let workspace := if has "workspace" then [] else
    [advice .missingWorkspace "No workspace file found"
      "Create a *.workspace.ubml.yaml file to define your project"]
  let actors := if has "process" && !has "actors" then
    [advice .missingActors "Process files exist but no actors are defined"
      "Add actors.ubml.yaml to define who performs process steps"] else []
  let glossary := if documents.length ≥ glossaryThreshold && !has "glossary" then
    [advice .suggestGlossary "Complex workspace without glossary"
      "Consider adding glossary.ubml.yaml for consistent terminology"] else []
  ⟨workspace ++ actors ++ glossary, files⟩

end BusinessModel.Workspace
