/-!
The codes of diagnostics.
-/

namespace BusinessModel

/-- What a diagnostic is about. A code of no known kind is kept as its text. -/
inductive Code where
  | yamlSyntax
  | yamlSafety
  | readError
  | unknownDocumentType
  | duplicateId
  | undefinedReference
  | wrongReferenceType
  | unusedId
  | multipleSingleton
  | hierarchyCycle
  | missingWorkspace
  | missingActors
  | suggestGlossary
  | schema (keyword : String)
  | other (text : String)
deriving DecidableEq, Repr, Inhabited

namespace Code

/-- The text of a code. -/
def text : Code → String
  | yamlSyntax => "ubml/yaml-syntax"
  | yamlSafety => "ubml/yaml-safety"
  | readError => "ubml/read-error"
  | unknownDocumentType => "ubml/unknown-document-type"
  | duplicateId => "ubml/duplicate-id"
  | undefinedReference => "ubml/undefined-reference"
  | wrongReferenceType => "ubml/wrong-reference-type"
  | unusedId => "ubml/unused-id"
  | multipleSingleton => "ubml/multiple-singleton"
  | hierarchyCycle => "ubml/hierarchy-cycle"
  | missingWorkspace => "ubml/missing-workspace"
  | missingActors => "ubml/missing-actors"
  | suggestGlossary => "ubml/suggest-glossary"
  | schema keyword => "ubml/schema-" ++ keyword
  | other text => text

/-- The codes that no schema keyword is part of. -/
def fixed : List Code :=
  [yamlSyntax, yamlSafety, readError, unknownDocumentType, duplicateId, undefinedReference,
   wrongReferenceType, unusedId, multipleSingleton, hierarchyCycle, missingWorkspace,
   missingActors, suggestGlossary]

/-- The code with a text. -/
def ofText (s : String) : Code := (fixed.find? (·.text == s)).getD (other s)

end Code

end BusinessModel
