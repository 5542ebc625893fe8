import BusinessModel.Schema.Format
import BusinessModel.Schema.Violation

/-!
Checking values against schemas. The keywords of a schema are applied in the order in which they
are written, and every violation is reported.

A schema may refer to itself, so the depth of the check is limited.
-/

namespace BusinessModel.Schema

/-- Applies a schema to a value, at a limited depth. -/
abbrev Applier := Scope → Located → Value → Except Fault (List Violation)

/-- Where a keyword is applied: the schema that it is part of, and the value. -/
structure Site where
  registry : Registry
  scope : Scope
  schema : Located
  subject : Value
  apply : Applier

namespace Site

/-- The violation of a schema that allows nothing. -/
def forbidden (schema : Located) (subject : Value) : Violation :=
  { keyword := none, argument := .null, subject, schema
    message := "False schema does not allow " ++ subject.quote }

/-- Applies an inner schema to a value, in the scope of its own address. -/
def enter (s : Site) (scope : Scope) (schema : Located) (subject : Value) :
    Except Fault (List Violation) := do
  match schema.value with
  | .bool true => return []
  | .bool false => return [forbidden schema subject]
  | v => s.apply (← scope.enter v) schema subject

/-- Applies an inner schema to a part of the value. What a schema that allows nothing reports is not
given the path of the part. -/
def enterAt (s : Site) (path : Option Segment) (trail : Option String) (schema : Located)
    (subject : Value) : Except Fault (List Violation) := do
  match schema.value with
  | .bool true => return []
  | .bool false => return [forbidden schema subject]
  | _ => return (← s.enter s.scope schema subject).map (·.within path trail)

/-- Whether a value meets an inner schema, in the scope of the outer one. -/
def meets (s : Site) (schema : Located) (subject : Value) : Except Fault Bool :=
  return (← s.apply s.scope schema subject).isEmpty

/-- Whether a value meets an inner schema, in the scope of its own address. -/
def meetsEntered (s : Site) (schema : Located) (subject : Value) : Except Fault Bool :=
  return (← s.enter s.scope schema subject).isEmpty

end Site

/-- Names in quotation marks, and whether one or several were unexpected. -/
def unexpectedText (names : List Value) : String :=
  ", ".intercalate (names.map Value.quote) ++ (if names.length == 1 then " was" else " were")

/-- Values in the order of their texts. -/
def sortedByText (vs : List Value) : List Value := vs.mergeSort fun a b => a.text ≤ b.text

/-- The pattern that a text writes. -/
def patternOf (text : String) : Except Fault Pattern :=
  match Pattern.parse? text with
  | some p => .ok p
  | none => .error (.badPattern text)

/-- The properties of a value that its schema neither declares nor matches by a pattern. -/
def undeclared (schema : Value) (entries : List (Value × Value)) :
    Except Fault (List (Value × Value)) := do
  let declared := ((schema.get? "properties").getD .null).entries
  let patterns := (((schema.get? "patternProperties").getD .null).entries).map (·.1.text)
  let joined := "|".intercalate patterns
  let matching ← if joined.isEmpty then pure none else some <$> patternOf joined
  return entries.filter fun (k, _) =>
    (match k with
      | .scalar k => (Value.lookupScalar k declared).isNone
      | _ => true) &&
    !matching.any fun p => p.search k.text

/-- A limit on a number: the order in which a number violates it. -/
def limitText? (keyword : String) (order : Ordering) : Option String :=
  match keyword, order with
  | "minimum", .lt => some "is less than the minimum of"
  | "maximum", .gt => some "is greater than the maximum of"
  | "exclusiveMinimum", .lt | "exclusiveMinimum", .eq =>
    some "is less than or equal to the minimum of"
  | "exclusiveMaximum", .gt | "exclusiveMaximum", .eq =>
    some "is greater than or equal to the maximum of"
  | _, _ => none

/-- A count as a scalar. -/
def countScalar (n : Nat) : Scalar := .int n

/-- Whether a count is below a limit. -/
def isBelow (n : Nat) (limit : Value) : Bool :=
  match limit with
  | .scalar l => (countScalar n).compareNumbers? l == some .lt
  | _ => false

/-- Whether a count is above a limit. -/
def isAbove (n : Nat) (limit : Value) : Bool :=
  match limit with
  | .scalar l => (countScalar n).compareNumbers? l == some .gt
  | _ => false

/-- Whether a limit is a given count. -/
def isCount (n : Nat) (limit : Value) : Bool :=
  match limit with
  | .scalar l => (countScalar n).same l
  | _ => false

/-- What is said of a text, list or mapping of a size that a limit on it does not allow. -/
def sizeText? (keyword : String) (size : Nat) (limit : Value) : Option String :=
  let small := isBelow size limit
  let large := isAbove size limit
  match keyword with
  | "minLength" | "minItems" =>
    if !small then none
    else some (if isCount 1 limit then "should be non-empty" else "is too short")
  | "minProperties" =>
    if !small then none
    else some (if isCount 1 limit then "should be non-empty" else "does not have enough properties")
  | "maxLength" | "maxItems" =>
    if !large then none
    else some (if isCount 0 limit then "is expected to be empty" else "is too long")
  | "maxProperties" =>
    if !large then none
    else some (if isCount 0 limit then "is expected to be empty" else "has too many properties")
  | _ => none

/-- The size of the value that a keyword limits, if the value is of the kind. -/
def sizeFor? (keyword : String) (v : Value) : Option Nat :=
  match keyword, v with
  | "minLength", .str s | "maxLength", .str s => some s.length
  | "minItems", .list vs | "maxItems", .list vs => some vs.length
  | "minProperties", .map es | "maxProperties", .map es => some es.length
  | _, _ => none

/-- A number as a fraction. -/
def fractionOf? : Scalar → Option (Int × Nat)
  | .int n => some (n, 1)
  | .float x => x.fraction?
  | _ => none

/-- Whether a number is no multiple of another. By a floating point number it is divided, and the
rounded quotient has to be whole; where the quotient is too large the exact one counts. -/
def breaksMultiple (number factor : Scalar) : Except Fault Bool :=
  let inexact : Bool :=
    match fractionOf? number, fractionOf? factor with
    | some (a, b), some (c, d) => (a * d) % (b * c) != 0
    | _, _ => true
  match factor, number with
  | .int _, _ => .ok inexact
  | .float f, n =>
    let x : Double := match n with
      | .int i => .ofInt i
      | .float x => x
      | _ => .nan
    match n, x with
    | .int _, .infinite _ => .error .quotientTooLarge
    | _, _ =>
      match x.div? f with
      | some .nan => .error .quotientUndefined
      | some (.infinite _) =>
        if x.isFinite && f.isFinite then .ok inexact else .error .quotientTooLarge
      | some q => .ok !q.isWhole
      | none => .ok inexact
  | _, _ => .ok false

/-- Whether two of the items are equal. -/
def hasDuplicates : List Value → Bool
  | [] => false
  | v :: rest => rest.any v.alike || hasDuplicates rest

/-- What a keyword has to say: of the value, or on its own. -/
inductive Complaint where
  | ofValue (text : String)
  | alone (text : String)
deriving DecidableEq, Repr

/-- The text of a complaint about a value. -/
def Complaint.message (v : Value) : Complaint → String
  | ofValue text => v.quote ++ " " ++ text
  | alone text => text

/-- A complaint about the value if a condition does not hold. -/
def complainUnless (holds : Bool) (text : Unit → String) : Option Complaint :=
  if holds then none else some (.ofValue (text ()))

/-- What going through the argument of a keyword yields. -/
def membersOf (argument : Value) : Except Fault (List Value) :=
  match argument.members? with
  | some members => .ok members
  | none => .error .noParts

/-- Whether a value has one of the types of the given names. -/
def hasTypeOf (names : List Value) (v : Value) : Except Fault Bool :=
  names.anyM fun name =>
    match ValueType.ofText? name.text with
    | some t => .ok (t.holds v)
    | none => .error (.unknownType name.text)

/-- The complaint of a keyword that looks at the value alone, if the value violates it. -/
def complaint? (keyword : String) (argument subject : Value) :
    Except Fault (Option Complaint) :=
  match keyword, subject with
  | "type", v => do
    let names := match argument with
      | .list names => names
      | name => [name]
    return complainUnless (← hasTypeOf names v) fun _ =>
      "is not of type " ++ ", ".intercalate (names.map Value.quote)
  | "enum", v => do
    return complainUnless ((← membersOf argument).any (·.alike v)) fun _ =>
      "is not one of " ++ argument.quote
  | "const", v =>
    .ok (if argument.alike v then none else some (.alone (argument.quote ++ " was expected")))
  | "pattern", .str s => do
    return complainUnless ((← patternOf argument.text).search s) fun _ =>
      "does not match " ++ argument.quote
  | "format", .str s => .ok <| complainUnless (Format.accepts argument.text s) fun _ =>
      "is not a " ++ argument.quote
  | "uniqueItems", .list vs =>
    .ok <| complainUnless (!(argument.isSet && hasDuplicates vs)) fun _ =>
      "has non-unique elements"
  | "multipleOf", .scalar s =>
    match argument, ValueType.number.holds subject with
    | .scalar factor, true => do
      return complainUnless (!(← breaksMultiple s factor)) fun _ =>
        "is not a multiple of " ++ argument.quote
    | _, _ => .ok none
  | "minimum", .scalar s | "maximum", .scalar s | "exclusiveMinimum", .scalar s
  | "exclusiveMaximum", .scalar s =>
    match argument, ValueType.number.holds subject with
    | .scalar limit, true =>
      .ok (((s.compareNumbers? limit).bind (limitText? keyword)).map fun text =>
        .ofValue (text ++ " " ++ argument.quote))
    | _, _ => .ok none
  | _, _ =>
    .ok (((sizeFor? keyword subject).bind fun size => sizeText? keyword size argument).map
      .ofValue)

/-- The names that a mapping lacks. -/
def missingNames (names : List Value) (entries : List (Value × Value)) : List Value :=
  names.filter fun n =>
    match n with
    | .scalar n => (Value.lookupScalar n entries).isNone
    | _ => true

/-- The value of a mapping at a key. -/
def valueAt? (key : Value) (entries : List (Value × Value)) : Option Value :=
  match key with
  | .scalar k => Value.lookupScalar k entries
  | _ => none

/-- The step to the value at a key. -/
def stepAt (key : Value) : Segment :=
  match key with
  | .int n => .index n
  | k => .key k.text

/-- Goes through the ways that a choice offers until one has no violations; gives the violations of
those before it and the ways behind it. -/
def firstMet (s : Site) : List (Located × Nat) → List Violation →
    Except Fault (Option (Located × List Located) × List Violation)
  | [], seen => .ok (none, seen)
  | (way, i) :: rest, seen => do
    let vs ← s.enterAt none (some (Text.natText i)) way s.subject
    if vs.isEmpty then return (some (way, rest.map (·.1)), seen)
    else firstMet s rest (seen ++ vs)

/-- The indices and names of parts of the value that a schema and those it applies take care of. -/
structure Cared where
  indices : List Nat := []
  keys : List Value := []
deriving Inhabited

namespace Cared

/-- What either takes care of. -/
def union (a b : Cared) : Cared := ⟨a.indices ++ b.indices, a.keys ++ b.keys⟩

end Cared

/-- What a schema takes care of in a value, by its own keywords and by those of the schemas that it
applies to the whole value. `items` asks for the items of a list, otherwise for properties. -/
def caredFor (registry : Registry) (apply : Applier) (items : Bool) :
    Nat → Scope → Located → Value → Except Fault Cared
  | 0, _, _, _ => .error .endless
  | fuel + 1, scope, schema, subject => do
    if let .bool _ := schema.value then return {}
    let site : Site := ⟨registry, scope, schema, subject, apply⟩
    let again := fun inner => caredFor registry apply items fuel scope inner subject
    let whole : Cared := { indices := List.range subject.items.length }
    if items && (schema.get? "items").isSome then return whole
    let mut cared : Cared := {}
    for key in ["$ref", "$dynamicRef"] do
      if let some (.str reference) := schema.value.get? key then
        let (target, inner) ← follow registry scope reference
        cared := cared.union (← caredFor registry apply items fuel inner target subject)
    if items then
      if let some inner := schema.get? "prefixItems" then
        cared := cared.union { indices := List.range inner.value.items.length }
      for key in ["contains", "unevaluatedItems"] do
        if let some inner := schema.get? key then
          for (v, i) in subject.items.zipIdx do
            if ← site.meets inner v then cared := cared.union { indices := [i] }
    else
      if let some (.map declared) := schema.value.get? "properties" then
        let keys := declared.map (·.1)
        cared := cared.union
          { keys := keys.filter fun k => (valueAt? k subject.entries).isSome }
      for key in ["additionalProperties", "unevaluatedProperties"] do
        if let some inner := schema.get? key then
          for (k, v) in subject.entries do
            if ← site.meetsEntered inner v then cared := cared.union { keys := [k] }
      if let some (.map patterns) := schema.value.get? "patternProperties" then
        for (k, _) in subject.entries do
          for (text, _) in patterns do
            let p ← patternOf text.text
            if p.search k.text then cared := cared.union { keys := [k] }
      if let some inner := schema.get? "dependentSchemas" then
        for (k, dependent) in inner.entries do
          if (valueAt? k subject.entries).isSome then cared := cared.union (← again dependent)
    for key in ["allOf", "oneOf", "anyOf"] do
      if let some inner := schema.get? key then
        for way in inner.items do
          if ← site.meetsEntered way subject then cared := cared.union (← again way)
    if let some condition := schema.get? "if" then
      if ← site.meets condition subject then
        cared := cared.union (← again condition)
        if let some inner := schema.get? "then" then cared := cared.union (← again inner)
      else if let some inner := schema.get? "else" then cared := cared.union (← again inner)
    return cared

/-- The violations of a keyword that applies schemas to the value or its parts, or looks at other
keywords; `none` for a keyword of another kind. `depth` limits the search for what is cared for. -/
def applyKeyword (s : Site) (depth : Nat) (keyword : String) (argument : Located) :
    Option (Except Fault (List Violation)) :=
  let v := s.subject
  let violation (message : String) : Violation :=
    { keyword := some keyword, argument := argument.value, subject := v, schema := s.schema
      message }
  let pure (vs : List Violation) : Except Fault (List Violation) := .ok vs
  match keyword with
  | "$ref" | "$dynamicRef" => some do
    let (target, scope) ← follow s.registry s.scope argument.value.text
    match target.value with
    | .bool true => return []
    | .bool false => return [Site.forbidden target v]
    | _ => s.apply scope target v
  | "allOf" => some do
    return (← argument.items.zipIdx.mapM fun (way, i) =>
      s.enterAt none (some (Text.natText i)) way v).flatten
  | "anyOf" => some do
    match ← firstMet s argument.items.zipIdx [] with
    | (some _, _) => return []
    | (none, seen) =>
      return [{ violation (v.quote ++ " is not valid under any of the given schemas") with
        context := seen }]
  | "oneOf" => some do
    match ← firstMet s argument.items.zipIdx [] with
    | (none, seen) =>
      return [{ violation (v.quote ++ " is not valid under any of the given schemas") with
        context := seen }]
    | (some (first, rest), _) =>
      let more ← rest.filterM fun way => s.meets way v
      if more.isEmpty then return []
      let texts := (more ++ [first]).map (·.value.quote)
      return [violation (v.quote ++ " is valid under each of " ++ ", ".intercalate texts)]
  | "not" => some do
    if ← s.meets argument v then
      return [violation (v.quote ++ " should not be valid under " ++ argument.value.quote)]
    return []
  | "if" => some do
    let branch := if ← s.meets argument v then "then" else "else"
    match s.schema.get? branch with
    | some inner => s.enterAt none (some branch) inner v
    | none => return []
  | "properties" => some <|
    match v with
    | .map entries => do
      return (← argument.entries.mapM fun (key, inner) =>
        match valueAt? key entries with
        | some value => s.enterAt (some (stepAt key)) (some key.text) inner value
        | none => .ok []).flatten
    | _ => pure []
  | "patternProperties" => some <|
    match v with
    | .map entries => do
      return (← argument.entries.mapM fun (text, inner) => do
        let p ← patternOf text.text
        return (← entries.mapM fun (key, value) =>
          if p.search key.text then s.enterAt (some (stepAt key)) (some text.text) inner value
          else .ok []).flatten).flatten
    | _ => pure []
  | "propertyNames" => some <|
    match v with
    | .map entries => do
      return (← entries.mapM fun (key, _) => s.enterAt none none argument key).flatten
    | _ => pure []
  | "additionalProperties" => some <|
    match v with
    | .map entries => do
      let extras ← undeclared s.schema.value entries
      match argument.value with
      | .map _ =>
        return (← extras.mapM fun (key, value) =>
          s.enterAt (some (stepAt key)) none argument value).flatten
      | a =>
        if a.isSet || extras.isEmpty then return []
        let names := sortedByText (extras.map (·.1))
        match s.schema.value.get? "patternProperties" with
        | some patterns =>
          let texts := sortedByText (patterns.entries.map (·.1))
          return [violation (", ".intercalate (names.map Value.quote)
            ++ (if names.length == 1 then " does" else " do")
            ++ " not match any of the regexes: " ++ ", ".intercalate (texts.map Value.quote))]
        | none =>
          return [violation ("Additional properties are not allowed ("
            ++ unexpectedText names ++ " unexpected)")]
    | _ => pure []
  | "required" => some <|
    match v with
    | .map entries => do
      return (missingNames (← membersOf argument.value) entries).map fun name =>
        violation (name.quote ++ " is a required property")
    | _ => pure []
  | "dependentRequired" => some <|
    match v with
    | .map entries => do
      return (← argument.value.entries.mapM fun (key, names) => do
        if (valueAt? key entries).isNone then return []
        return (missingNames (← membersOf names) entries).map fun name =>
          violation (name.quote ++ " is a dependency of " ++ key.quote)).flatten
    | _ => pure []
  | "dependentSchemas" => some <|
    match v with
    | .map entries => do
      return (← argument.entries.mapM fun (key, inner) =>
        if (valueAt? key entries).isSome then s.enterAt none (some key.text) inner v
        else .ok []).flatten
    | _ => pure []
  | "prefixItems" => some <|
    match v with
    | .list vs => do
      return (← (vs.zip argument.items).zipIdx.mapM fun ((value, inner), i) =>
        s.enterAt (some (.index i)) (some (Text.natText i)) inner value).flatten
    | _ => pure []
  | "items" => some <|
    match v with
    | .list vs =>
      let front := ((s.schema.value.get? "prefixItems").getD .null).items.length
      let rest := vs.drop front
      if rest.isEmpty then pure []
      else if let .bool false := argument.value then
        let shown := match rest with
          | [one] => one
          | several => .list several
        pure [violation ("Expected at most " ++ Text.natText front
          ++ (if front == 1 then " item" else " items") ++ " but found "
          ++ Text.natText rest.length ++ " extra: " ++ shown.quote)]
      else do
        return (← rest.zipIdx.mapM fun (value, i) =>
          s.enterAt (some (.index (front + i))) none argument value).flatten
    | _ => pure []
  | "contains" => some <|
    match v with
    | .list vs => do
      let least := (s.schema.value.get? "minContains").getD (.int 1)
      let most := (s.schema.value.get? "maxContains").getD (.int vs.length)
      let found ← vs.filterM fun value => s.meets argument value
      if isAbove found.length most then
        return [{ violation ("Too many items match the given schema (expected at most "
            ++ most.text ++ ")") with keyword := some "maxContains", argument := most }]
      else if isBelow found.length least then
        if found.isEmpty then
          return [violation (v.quote ++ " does not contain items matching the given schema")]
        return [{ violation ("Too few items match the given schema (expected at least "
            ++ least.text ++ " but only " ++ Text.natText found.length ++ " matched)") with
          keyword := some "minContains", argument := least }]
      else return []
    | _ => pure []
  | "unevaluatedItems" => some <|
    match v with
    | .list vs => do
      let cared ← caredFor s.registry s.apply true depth s.scope s.schema v
      let rest := vs.zipIdx.filter fun (_, i) => !cared.indices.contains i
      if rest.isEmpty then return []
      return [violation ("Unevaluated items are not allowed ("
        ++ unexpectedText (rest.map (·.1)) ++ " unexpected)")]
    | _ => pure []
  | "unevaluatedProperties" => some <|
    match v with
    | .map entries => do
      let cared ← caredFor s.registry s.apply false depth s.scope s.schema v
      let rest := entries.filter fun (k, _) => !cared.keys.any fun c => c.same k
      let names ← rest.mapM fun (key, value) => do
        return (← s.enterAt none none argument value).map fun _ => key
      let names := names.flatten
      if names.isEmpty then return []
      else if let .bool false := argument.value then
        return [violation ("Unevaluated properties are not allowed ("
          ++ unexpectedText (sortedByText names) ++ " unexpected)")]
      else
        return [violation ("Unevaluated properties are not valid under the given schema ("
          ++ unexpectedText names ++ " unexpected)")]
    | _ => pure []
  | _ => none

/-- The violations of one keyword of a schema. -/
def keywordViolations (s : Site) (depth : Nat) (keyword : String) (argument : Located) :
    Except Fault (List Violation) :=
  match applyKeyword s depth keyword argument with
  | some vs => vs
  | none => do
    match ← complaint? keyword argument.value s.subject with
    | some complaint =>
      return [{ keyword := some keyword, argument := argument.value, subject := s.subject
                schema := s.schema, message := complaint.message s.subject }]
    | none => return []

/-- Keywords that leave no step in the trail of a violation. -/
def isSilent (keyword : String) : Bool := ["if", "$ref", "$dynamicRef"].contains keyword

/-- Applies a schema to a value. -/
def check (registry : Registry) : Nat → Applier
  | 0, _, _, _ => .error .endless
  | fuel + 1, scope, schema, subject =>
    match schema.value with
    | .bool true => .ok []
    | .bool false => .ok [Site.forbidden schema subject]
    | .map _ => do
      let site : Site := ⟨registry, scope, schema, subject, check registry fuel⟩
      return (← schema.entries.mapM fun (key, argument) =>
        match key with
        | .str keyword => do
          let vs ← keywordViolations site fuel keyword argument
          return if isSilent keyword then vs else vs.map (·.within none (some keyword))
        | _ => .ok []).flatten
    | _ => .error .noSchema

/-- How deep schemas are applied inside each other. -/
def checkDepth : Nat := 1000

/-- The violations of a registered schema by a value. -/
def violations (registry : Registry) (schema : Located) (subject : Value) :
    Except Fault (List Violation) := do
  let base := (← idOf? schema.value).getD ""
  check registry checkDepth { base } schema subject

end BusinessModel.Schema
