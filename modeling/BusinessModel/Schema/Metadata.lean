import BusinessModel.Identifier
import BusinessModel.Schema.Walk

/-!
What a set of schemas says about documents besides their form: identifiers, document types, the
properties that refer to elements, and advice.
-/

namespace BusinessModel.Schema

/-- How many documents of a type a workspace may have. -/
inductive Multiplicity where
  /-- At most one. -/
  | singleton
  /-- Many, with elements that are often not referred to. -/
  | catalog
  | multiple
deriving DecidableEq, Repr, Inhabited

namespace Multiplicity

/-- The word for a multiplicity. -/
def text : Multiplicity → String
  | singleton => "singleton"
  | catalog => "catalog"
  | multiple => "multiple"

/-- The multiplicity of a word. -/
def ofText? (s : String) : Option Multiplicity :=
  [singleton, catalog, multiple].find? (·.text == s)

end Multiplicity

/-- A kind of element: the letters of its identifiers, its type, the type of the documents that
define it, and its name for people. -/
structure ElementKind where
  letters : String
  elementType : String
  documentType : Value
  humanName : String
deriving Inhabited

/-- A type of documents: the address of its schema, how many there may be, and the keys that tell
it. -/
structure DocumentKind where
  type : String
  address : String
  multiplicity : Multiplicity
  detectBy : List Value
deriving Inhabited

/-- Everything that a set of schemas says besides the form of documents. -/
structure Metadata where
  ids : IdScheme := {}
  kinds : List ElementKind := []
  documents : List DocumentKind := []
  referenceFields : List (String × List String) := []
  hints : Hints := {}
  parentFields : List Value := [.str "parent"]
  childFields : List Value := [.str "children"]
  commonProperties : List Value := []
deriving Inhabited

namespace Metadata

/-- The document types. -/
def documentTypes (m : Metadata) : List String := m.documents.map (·.type)

/-- How many documents of a type there may be; many, for an unknown type. -/
def multiplicity (m : Metadata) (type : String) : Multiplicity :=
  ((m.documents.find? (·.type == type)).map (·.multiplicity)).getD .multiple

/-- The types of which there may be one document. -/
def singletonTypes (m : Metadata) : List String :=
  (m.documents.filter (·.multiplicity == .singleton)).map (·.type)

/-- The keys that tell the document types. -/
def signatures (m : Metadata) : List (String × List Value) :=
  m.documents.map fun d => (d.type, d.detectBy)

/-- The name for people of the kind of element that letters stand for. -/
def humanName (m : Metadata) (letters : String) : String :=
  ((m.kinds.find? (·.letters == letters)).map (·.humanName)).getD (letters ++ " ID")

/-- Whether a property refers to elements. -/
def isReferenceField (m : Metadata) (name : String) : Bool :=
  (m.referenceFields.lookup name).isSome

/-- The letters of the identifiers that a property accepts; no letters stand for all. -/
def acceptedLetters? (m : Metadata) (name : String) : Option (List String) :=
  m.referenceFields.lookup name

/-- Whether a property refers to the parent of an element. -/
def isParentField (m : Metadata) (name : String) : Bool := m.parentFields.any (Value.str name).same

/-- Whether a property refers to the children of an element. -/
def isChildField (m : Metadata) (name : String) : Bool := m.childFields.any (Value.str name).same

/-- The kind of element that a definition declares. -/
def elementKind? (name : Value) (definition : Value) : Except Malformed (Option ElementKind) := do
  match ← Block.entriesWith? (Block.about definition) "prefix" with
  | none => return none
  | some es =>
    let letters := Block.textOr es "prefix" ""
    return some {
      letters, elementType := Block.textOr es "elementType" name.text
      documentType := (Value.lookup "documentType" es).getD .null
      humanName := Block.textOr es "humanName" (letters ++ " ID") }

/-- The kinds of elements that definitions declare; the same letters may not be declared twice. -/
def elementKinds (definitions : List (Value × Value)) : Except Malformed (List ElementKind) :=
  definitions.foldlM (fun kinds (name, definition) => do
    match ← elementKind? name definition with
    | none => return kinds
    | some kind =>
      if kinds.any (·.letters == kind.letters) then
        throw (.invalid ("ID prefix " ++ Text.quote kind.letters ++ " is declared twice (" ++
          name.text ++ ")"))
      return kinds ++ [kind]) []

/-- What the schema of a document type says about the type. -/
def documentKind (type : String) (schema : Value) : Except Malformed DocumentKind := do
  let block ← Block.entries (schema.get? "x-ubml-document")
  let declared := (Value.lookup "multiplicity" block).getD (.str Multiplicity.multiple.text)
  match declared.str?.bind Multiplicity.ofText? with
  | none =>
    throw (.invalid ("Document type " ++ Text.quote type ++ " declares unknown multiplicity " ++
      ((Value.lookup "multiplicity" block).getD .null).quote))
  | some multiplicity =>
    let detectBy ← Block.members (Value.lookup "detectBy" block)
    return { type, address := ((schema.get? "$id").getD .null).text, multiplicity, detectBy }

/-- The members of a collection, or others if it is absent or empty. A mapping or a list cannot be
such a member. -/
def names (collection : Option Value) (default : List Value) : Except Malformed (List Value) := do
  match ← Block.members collection with
  | [] => return default
  | vs =>
    if vs.all fun v => match v with
      | .scalar _ => true
      | _ => false then return vs
    throw .wrongType

/-- What a set of schemas says: its index, its shared definitions, and the schemas of the document
types. -/
def ofSchemas (index definitions : Value) (documents : List (String × Value))
    (registry : Registry) : Except Malformed Metadata := do
  let config ← Block.entries (definitions.get? "x-ubml-id-config")
  let digitLength ← Block.wholeNumber ((Value.lookup "digitLength" config).getD (.int 5))
  let initOffset ← Block.wholeNumber ((Value.lookup "initOffset" config).getD (.int 1))
  let shared ← Block.entries (definitions.get? "$defs")
  let kinds ← elementKinds shared
  let documentKinds ← documents.mapM fun (type, schema) => documentKind type schema
  let notes ← Walk.ofAddresses registry (documentKinds.map (·.address))
  let hierarchy ← Block.entries (definitions.get? "x-ubml-hierarchy")
  let ids : IdScheme :=
    { kinds := kinds.map fun k => (k.letters, k.elementType), digitLength, initOffset }
  if ids.pattern?.isNone then throw .badLetters
  let patterns ← Block.patternHints (definitions :: documents.map (·.2))
  let nested ← Block.nestedHints shared
  let enums ← notes.enumHints
  let required ← Block.requiredHints (definitions.get? "x-ubml-required-hints")
  let parentFields ← names (Value.lookup "parentFields" hierarchy) [.str "parent"]
  let childFields ← names (Value.lookup "childFields" hierarchy) [.str "children"]
  let commonProperties ← Block.members (index.get? "x-ubml-common-properties")
  return {
    ids, kinds, documents := documentKinds, referenceFields := notes.referenceFields
    hints := { patterns, nested, enums, required }
    parentFields, childFields, commonProperties }

end Metadata

end BusinessModel.Schema
