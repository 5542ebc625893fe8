import BusinessModel.Text.Distance
import BusinessModel.Workspace.References

/-!
Advice on the diagnostics of references: identifiers that may have been meant, free identifiers, and
where elements are to be defined.
-/

namespace BusinessModel.ReferenceAdvice

open Schema

/-- The reference that a diagnostic is about: the first one at its place. -/
def reference? (r : IdRegistry) (d : Diagnostic) : Option Reference :=
  (r.referenced.flatMap (·.2)).find? fun ref =>
    some ref.path == d.path && some ref.filepath == d.filepath

/-- The last segment of the path of a diagnostic. -/
def lastSegment? (d : Diagnostic) : Option String := d.path.bind Pointer.last?

/-- Identifiers in order. -/
def sortedIds (ids : List String) : List String := ids.mergeSort fun a b => a ≤ b

/-- Advice on an undefined reference. -/
def onUndefined (m : Metadata) (registry : IdRegistry) (ref : Reference) (d : Diagnostic) :
    Diagnostic :=
  let letters := (m.ids.letters? ref.id).getD ""
  let candidates := registry.idsWith letters
  let kind := (m.kinds.find? (·.letters == letters)).filter fun k => k.documentType.isSet
  { d with
    suggestion := (Text.didYouMean (Text.closest? ref.id (candidates.map .str))).orElse fun _ =>
      d.suggestion
    hint := (kind.map fun k => "Define " ++ ref.id ++ " in a " ++ k.documentType.text ++
      " document or reference an existing " ++ k.humanName ++ ".").orElse fun _ => d.hint
    validOptions := sortedIds candidates }

/-- Advice on a reference of a wrong type. -/
def onWrongType (m : Metadata) (registry : IdRegistry) (ref : Reference) (d : Diagnostic) :
    Diagnostic :=
  let accepted := (m.acceptedLetters? ref.field).getD []
  { d with
    hint := some ("'" ++ ref.field ++ "' accepts: " ++
      ", ".intercalate (accepted.map m.humanName))
    validOptions := sortedIds (accepted.flatMap registry.idsWith) }

/-- Advice on a repeated identifier: the next one that is free. -/
def onDuplicate (m : Metadata) (registry : IdRegistry) (d : Diagnostic) : Diagnostic :=
  match (lastSegment? d).bind fun id => if id.isEmpty then none else m.ids.letters? id with
  | none => d
  | some letters =>
    let id := m.ids.next letters (registry.defined.map (·.id)) none
    { d with suggestion := some ("Use a new ID such as \"" ++ id ++ "\"") }

/-- Advice on an identifier that nothing refers to. -/
def onUnused (m : Metadata) (registry : IdRegistry) (d : Diagnostic) : Diagnostic :=
  let id := lastSegment? d
  let definition := (id.filter (!·.isEmpty)).bind registry.definition?
  let type := (definition.bind (·.documentType)).filter fun t =>
    !t.isEmpty && m.multiplicity t == .catalog
  { d with hint := some <| match type with
    | some t => t ++ " documents are catalogs whose entries are often " ++
        "unreferenced; suppress unused-ID warnings to silence this."
    | none => "Reference " ++ id.getD "None" ++ " from another element or remove it." }

/-- The diagnostic with advice, as far as the metadata give any. -/
def advise (m : Option Metadata) (registry : IdRegistry) (d : Diagnostic) : Diagnostic :=
  match m with
  | none => d
  | some m =>
    match d.code with
    | .undefinedReference =>
      match reference? registry d with
      | some ref => onUndefined m registry ref d
      | none => d
    | .wrongReferenceType =>
      match reference? registry d with
      | some ref => onWrongType m registry ref d
      | none => d
    | .duplicateId => onDuplicate m registry d
    | .unusedId => onUnused m registry d
    | _ => d

end BusinessModel.ReferenceAdvice
