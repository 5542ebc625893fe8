import BusinessModel.Diagnostic
import BusinessModel.Document

/-!
The identifiers that documents define and refer to. Of several definitions of an identifier the
first one counts.
-/

namespace BusinessModel

/-- The definition of an identifier. -/
structure Definition where
  id : String
  letters : String
  elementType : String
  filepath : String
  path : String
  span : Option Span := none
  documentType : Option String := none
deriving DecidableEq, Repr, Inhabited

/-- A reference to an identifier: the property that holds it, and the innermost element around it,
the owner. -/
structure Reference where
  id : String
  filepath : String
  field : String
  path : String
  span : Option Span := none
  owner : Option String := none
deriving DecidableEq, Repr, Inhabited

/-- The definitions that count and all references, in order. -/
structure IdRegistry where
  defined : List Definition := []
  references : List Reference := []
deriving DecidableEq, Repr, Inhabited

namespace IdRegistry

/-- The definition of an identifier. -/
def definition? (r : IdRegistry) (id : String) : Option Definition := r.defined.find? (·.id == id)

/-- Whether an identifier is defined. -/
def isDefined (r : IdRegistry) (id : String) : Bool := (r.definition? id).isSome

/-- Records a definition, unless there is an earlier one, which is given back. -/
def define (r : IdRegistry) (d : Definition) : Option Definition × IdRegistry :=
  match r.definition? d.id with
  | some first => (some first, r)
  | none => (none, { r with defined := r.defined ++ [d] })

/-- Records a reference. -/
def refer (r : IdRegistry) (ref : Reference) : IdRegistry :=
  { r with references := r.references ++ [ref] }

/-- The references to an identifier. -/
def referencesTo (r : IdRegistry) (id : String) : List Reference :=
  r.references.filter (·.id == id)

/-- The identifiers that are referred to, each once, in the order of the first references. -/
def referencedIds (r : IdRegistry) : List String :=
  (r.references.foldl (fun seen ref => if seen.contains ref.id then seen else ref.id :: seen)
    []).reverse

/-- The references by identifiers, in the order of the first references. -/
def referenced (r : IdRegistry) : List (String × List Reference) :=
  r.referencedIds.map fun id => (id, r.referencesTo id)

/-- The defined identifiers with the given letters. -/
def idsWith (r : IdRegistry) (letters : String) : List String :=
  (r.defined.filter (·.letters == letters)).map (·.id)

end IdRegistry

end BusinessModel
