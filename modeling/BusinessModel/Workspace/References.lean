import BusinessModel.Schema.Metadata
import BusinessModel.Workspace.Cycle
import BusinessModel.Workspace.Entry
import BusinessModel.Workspace.Registry

/-!
Checking references between documents. A key that is a valid identifier defines an element; certain
properties refer to elements by their identifiers. References are checked when all definitions are
known, so the order of the documents does not matter to them.
-/

namespace BusinessModel

open Schema

/-- What to leave out of the check. -/
structure ReferenceOptions where
  suppressUnused : Bool := false
  checkMultiplicity : Bool := true
  checkHierarchy : Bool := true
deriving DecidableEq, Repr, Inhabited

/-- The result of the check, with the identifiers. -/
structure ReferenceReport where
  errors : List Diagnostic := []
  warnings : List Diagnostic := []
  registry : IdRegistry := {}
deriving Inhabited

/-- The innermost element around a reference is not defined by any document. -/
structure UnknownOwner where
  id : String
deriving DecidableEq, Repr, Inhabited

namespace Document

/-- The definition that an entry of a document makes, if its key is an identifier. -/
def definition (ids : IdScheme) (d : Document) (e : Entry) : Definition :=
  let letters := (ids.letters? e.key).getD ""
  { id := e.key, letters, elementType := (ids.kinds.lookup letters).getD "element"
    filepath := d.filepath, path := e.path, span := d.location? e.path, documentType := d.type }

/-- The definitions in a document. -/
def definitions (ids : IdScheme) (d : Document) : List Definition :=
  (d.entries.filter fun e => ids.isValid e.key).map (d.definition ids)

/-- The innermost element around the part at a pointer. -/
def owner? (ids : IdScheme) (path : String) : Option String :=
  (Pointer.pieces path).dropLast.reverse.find? ids.isValid

/-- The references that an entry of a document holds, if its key is that of a reference. -/
def referencesIn (m : Metadata) (d : Document) (e : Entry) : List Reference :=
  (e.texts.filter fun t => m.ids.isValid t.2).map fun (path, id) =>
    { id, filepath := d.filepath, field := e.key, path, span := d.location? path
      owner := owner? m.ids e.path }

/-- The references in a document. -/
def references (m : Metadata) (d : Document) : List Reference :=
  (d.entries.filter fun e => m.isReferenceField e.key).flatMap (d.referencesIn m)

/-- The error on a document of a type of which there is one already. -/
def repeatError (type : String) (d first : Document) : Diagnostic :=
  { code := .multipleSingleton
    message := "Only one " ++ type ++ " document is allowed per workspace; " ++
      "another is defined in " ++ first.filepath
    filepath := some d.filepath, path := some "", span := d.location? ""
    related := [⟨first.filepath, some "", first.location? ""⟩] }

end Document

namespace Definition

/-- The place of a definition, as related to another. -/
def related (d : Definition) : Related := ⟨d.filepath, some d.path, d.span⟩

/-- The error on a definition of an identifier that is defined already. -/
def duplicateError (d first : Definition) : Diagnostic :=
  { code := .duplicateId
    message := "Duplicate ID \"" ++ d.id ++ "\": also defined in " ++ first.filepath ++ " at " ++
      first.path
    filepath := some d.filepath, path := some d.path, span := d.span
    related := [first.related] }

/-- The warning on an identifier that nothing refers to. -/
def unusedWarning (d : Definition) : Diagnostic :=
  { code := .unusedId, severity := .warning
    message := "ID \"" ++ d.id ++ "\" is defined but never referenced"
    filepath := some d.filepath, path := some d.path, span := d.span }

end Definition

namespace Reference

/-- The error on a reference to an identifier that is not defined. -/
def undefinedError (r : Reference) : Diagnostic :=
  { code := .undefinedReference
    message := "Undefined reference: \"" ++ r.id ++ "\" in '" ++ r.field ++
      "' is not defined in any document"
    filepath := some r.filepath, path := some r.path, span := r.span }

/-- The error on a reference to an element of a kind that the property does not accept. -/
def wrongTypeError (m : Metadata) (accepted : List String) (letters : String) (r : Reference) :
    Diagnostic :=
  { code := .wrongReferenceType
    message := "Wrong reference type: '" ++ r.field ++ "' expects " ++
      " or ".intercalate (accepted.map m.humanName) ++ ", but \"" ++ r.id ++ "\" is a " ++
      m.humanName letters
    filepath := some r.filepath, path := some r.path, span := r.span }

/-- The errors on a reference. -/
def errors (m : Metadata) (registry : IdRegistry) (r : Reference) : List Diagnostic :=
  let letters := (m.ids.letters? r.id).getD ""
  let undefined := if registry.isDefined r.id then [] else [r.undefinedError]
  let accepted := (m.acceptedLetters? r.field).getD []
  let wrong :=
    if accepted.isEmpty || accepted.contains letters then []
    else [r.wrongTypeError m accepted letters]
  undefined ++ wrong

/-- The edge from an element to its parent that a reference states. -/
def edge? (m : Metadata) (registry : IdRegistry) (r : Reference) : Option Edge :=
  match r.owner with
  | none => none
  | some owner =>
    if !registry.isDefined r.id then none
    else if m.isParentField r.field then some ⟨owner, r.id⟩
    else if m.isChildField r.field then some ⟨r.id, owner⟩
    else none

end Reference

namespace IdRegistry

/-- Records definitions, with an error for each that comes too late. -/
def defineAll (r : IdRegistry) : List Definition → List Diagnostic × IdRegistry
  | [] => ([], r)
  | d :: rest =>
    match r.define d with
    | (some first, r) =>
      let (errors, r) := r.defineAll rest
      (d.duplicateError first :: errors, r)
    | (none, r) => r.defineAll rest

/-- The warnings on identifiers that nothing refers to. -/
def unusedWarnings (r : IdRegistry) : List Diagnostic :=
  (r.defined.filter fun d => (r.referencesTo d.id).isEmpty).map Definition.unusedWarning

/-- The error on elements that are their own ancestors. -/
def cycleError (r : IdRegistry) (cycle : List String) : Except UnknownOwner Diagnostic := do
  let definitions ← cycle.mapM fun id =>
    match r.definition? id with
    | some d => Except.ok d
    | none => .error ⟨id⟩
  let first := definitions.headD default
  return {
    code := .hierarchyCycle
    message := "Hierarchy cycle detected: " ++
      " -> ".intercalate (cycle ++ cycle.take 1)
    filepath := some first.filepath, path := some first.path, span := first.span
    related := (definitions.drop 1).map Definition.related }

/-- The errors on elements that are their own ancestors. -/
def cycleErrors (m : Metadata) (r : IdRegistry) : Except UnknownOwner (List Diagnostic) :=
  (Cycle.all (r.references.filterMap (Reference.edge? m r))).mapM r.cycleError

end IdRegistry

/-- The errors on documents of types of which there may be only one; `seen` are the first documents
of these types. -/
def multiplicityErrors (m : Metadata) : List Document → List (String × Document) → List Diagnostic
  | [], _ => []
  | d :: rest, seen =>
    match d.type with
    | none => multiplicityErrors m rest seen
    | some type =>
      if m.multiplicity type != .singleton then multiplicityErrors m rest seen
      else
        match seen.lookup type with
        | none => multiplicityErrors m rest ((type, d) :: seen)
        | some first =>
          if first.serial == d.serial then multiplicityErrors m rest seen
          else d.repeatError type first :: multiplicityErrors m rest seen

namespace Workspace

/-- The registry of the identifiers in documents, with the errors on repeated definitions. -/
def register (m : Metadata) (documents : List Document) : List Diagnostic × IdRegistry :=
  let (errors, registry) :=
    ({} : IdRegistry).defineAll (documents.flatMap (Document.definitions m.ids))
  (errors, { registry with references := documents.flatMap (Document.references m) })

/-- Checks the references between documents. -/
def checkReferences (m : Metadata) (documents : List Document) (options : ReferenceOptions) :
    Except UnknownOwner ReferenceReport := do
  let (duplicates, registry) := register m documents
  let references := registry.references.flatMap (Reference.errors m registry)
  let multiplicity := if options.checkMultiplicity then multiplicityErrors m documents [] else []
  let cycles ← if options.checkHierarchy then registry.cycleErrors m else pure []
  return {
    errors := duplicates ++ references ++ multiplicity ++ cycles
    warnings := if options.suppressUnused then [] else registry.unusedWarnings
    registry }

end Workspace

end BusinessModel
