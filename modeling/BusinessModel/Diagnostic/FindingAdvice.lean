import BusinessModel.Diagnostic
import BusinessModel.Diagnostic.PatternAdvice
import BusinessModel.Document
import BusinessModel.Schema.Finding
import BusinessModel.Text.Distance

/-!
Advice on findings. For each keyword the sources are asked in a fixed order: what the schemas say
about exactly this mistake, then the form of the value, then the closest of the known names.

A finding whose advice cannot be made keeps the message of the schema engine.
-/

namespace BusinessModel

/-- What a schema contributes to the advice: the names of its properties, examples, and examples for
properties. -/
structure AdviceContext where
  validProperties : List String := []
  samples : List Value := []
  propertySamples : List (String × Value) := []
deriving Inhabited

/-- Why a schema contributes nothing. -/
inductive ContextFault where
  /-- The name of a property is no text. -/
  | unnamedProperty
  /-- Examples without a first one. -/
  | noFirst (cause : Schema.Malformed)
deriving Inhabited

namespace AdviceContext

/-- The first example of a property, if it has any. -/
def sampleOf? (property : Value) : Except ContextFault (Option Value) :=
  match (property.get? "examples").filter Value.isSet with
  | none => .ok none
  | some samples => (some <$> Schema.Block.first samples).mapError .noFirst

/-- The examples for properties. -/
def samplesOf (properties : List (Value × Value)) : Except ContextFault (List (Value × Value)) :=
  return (← properties.mapM fun (name, property) => do
    return (← sampleOf? property).map (name, ·)).filterMap id

/-- The names of properties. -/
def namesOf (names : List Value) : Except ContextFault (List String) :=
  names.mapM fun name =>
    match name with
    | .str s => .ok s
    | _ => .error .unnamedProperty

/-- What the violated schema of a finding contributes. -/
def ofFinding (f : Finding) : Except ContextFault AdviceContext := do
  let schema := f.schema.getD .null
  let properties := ((schema.get? "properties").getD .null).entries
  let samples ← samplesOf properties
  let validProperties ← namesOf (properties.map (·.1))
  return {
    validProperties, samples := ((schema.get? "examples").getD .null).items
    propertySamples := samples.map fun (name, v) => (name.text, v) }

end AdviceContext

namespace FindingAdvice

open Schema

/-- The engine's own message, or one that names the keyword. -/
def plainMessage (f : Finding) : String :=
  if f.message.isEmpty then "Validation error (" ++ f.keyword ++ ")" else f.message

/-- A value as it is written in a document. -/
def scalarText : Value → String
  | .bool true => "true"
  | .bool false => "false"
  | .null => "null"
  | v => v.text

/-- The text of the value that a finding is about. -/
def valueText (f : Finding) : String :=
  match f.data with
  | .null => ""
  | v => v.text

/-- The name of a type in messages. A number is an integer only if it is written as one. -/
def typeName : Value → ValueType
  | .null => .null
  | .bool _ => .boolean
  | .int _ => .integer
  | .float _ => .number
  | .str _ => .string
  | .list _ => .array
  | .map _ => .object

/-- Advice that needs a block of a form that it does not have. -/
def usable {α : Type} (x : Except Malformed α) : Except AdviceFault α :=
  x.mapError fun _ => .unusable

/-- The name of the property that is not declared. -/
def undeclaredName (f : Finding) : String :=
  match f.param? "additionalProperty" with
  | some v => v.text
  | none => f.propertyName?.getD ""

/-- Advice on a property that is not declared. -/
def ofUndeclared (hints : Hints) (f : Finding) (context : AdviceContext) : Advice :=
  let property := undeclaredName f
  let message := "Unknown property: \"" ++ property ++ "\""
  let names := context.validProperties
  match (hints.nestedHint? property).filter fun h => names.isEmpty || names.contains h.parent with
  | some h => {
      message, suggestion := some h.hint, sample := some (h.exampleFor property)
      validOptions := names }
  | none => {
      message, suggestion := Text.didYouMean (Text.closest? property (names.map .str))
      validOptions := names }

/-- What the violated schema says of a wrong word. -/
def schemaMistake? (f : Finding) (word : String) : Except AdviceFault (Option String) := do
  let about ← usable (Block.entries ((f.schema.getD .null).get? "x-ubml"))
  let mistakes ← usable (Block.entries (Value.lookup "valueMistakes" about))
  match Value.lookup word mistakes with
  | some mistake => return (mistake.get? "hint").map Value.text
  | none => return none

/-- Advice on a word that is none of the allowed ones. -/
def ofEnum (hints : Hints) (f : Finding) : Except AdviceFault Advice := do
  let allowed := (← usable (Block.members (f.param? "allowedValues"))).map Value.text
  let allowed :=
    if !allowed.isEmpty then allowed
    else (f.propertyName?.bind hints.enumValues?).getD []
  let word := valueText f
  let message := "Invalid value: \"" ++ word ++ "\""
  let mistake := (← schemaMistake? f word).filter (!·.isEmpty)
  let mistake := mistake.orElse fun _ =>
    (hints.enumMistake? word (allowed.map .str) f.propertyName?).filter (!·.isEmpty)
  let suggestion := mistake.orElse fun _ => Text.didYouMean (Text.closest? word (allowed.map .str))
  return { message, suggestion, validOptions := allowed }

/-- What the violated schema says of its pattern: advice and an example. -/
def schemaPatternHint (f : Finding) : Except AdviceFault (Option String × Option String) := do
  let schema := f.schema.getD .null
  if !schema.isSet then return (none, none)
  let about ← usable (Block.entries (schema.get? "x-ubml"))
  let samples := (schema.get? "examples").filter Value.isSet
  let hint := (Value.lookup "errorHint" about).filter Value.isSet
  let sample ← samples.mapM fun v => usable (Block.first v)
  return (hint.map Value.text, sample.map Value.text)

/-- Advice and an example for a pattern: of the violated schema, or of another one with the same
pattern, or from the form of the pattern. -/
def patternHint (hints : Hints) (f : Finding) (pattern : String) :
    Except AdviceFault (String × Option String) := do
  match ← schemaPatternHint f with
  | (some hint, sample) => return (hint, sample)
  | (none, _) =>
    match hints.patternHint? pattern with
    | some h => return (h.hint, h.sample)
    | none => PatternAdvice.hint pattern

/-- Advice on a text that does not match a pattern. -/
def ofPattern (hints : Hints) (f : Finding) (context : AdviceContext) :
    Except AdviceFault Advice := do
  let pattern := ((f.param? "pattern").map Value.text).getD ""
  let text := valueText f
  let (hint, sample) ← patternHint hints f pattern
  let sample := sample.orElse fun _ => context.samples.head?.map Value.text
  let suggestion ← PatternAdvice.suggestion? text pattern
  return { message := "Invalid format: \"" ++ text ++ "\"", suggestion, hint := some hint, sample }

/-- Advice on a property that is missing. -/
def ofMissing (hints : Hints) (f : Finding) (context : AdviceContext) :
    Except AdviceFault Advice :=
  let property := ((f.param? "missingProperty").map Value.text).getD ""
  let message := "Missing required property: \"" ++ property ++ "\""
  let add := some ("Add the \"" ++ property ++ "\" property.")
  match hints.required.lookup property with
  | some h =>
    match h.sample with
    | .null => .ok { message, hint := some h.hint }
    | .str sample => .ok { message, hint := some h.hint, sample := some sample }
    | _ => .error .unusable
  | none =>
    let shown := match context.propertySamples.lookup property with
      | some v => scalarText v
      | none => "..."
    .ok { message, hint := add, sample := some (property ++ ": " ++ shown) }

/-- The names of types between commas. -/
def typeNames (s : String) : List String := (Format.pieces ',' s.toList).map String.ofList

/-- Advice on a value of a wrong type. -/
def ofType (f : Finding) : Advice :=
  let expected := ((f.param? "type").map Value.text).getD "unknown"
  let names := typeNames expected
  let actual := typeName f.data
  let suggestion :=
    if names.contains "array" && actual != .array && actual != .object then
      some ("Wrap the value in a list: [" ++ scalarText f.data ++ "]")
    else if names.contains "object" && actual != .object then
      some "Use a mapping of 'key: value' entries here"
    else if names.contains "string" && [.integer, .number, .boolean].contains actual then
      some ("Quote the value to make it a string: \"" ++ scalarText f.data ++ "\"")
    else none
  { message := "Type mismatch: expected " ++ expected ++ ", got " ++ actual.text, suggestion }

/-- Advice on a value that meets none of several schemas. -/
def ofChoice (f : Finding) : Advice :=
  { message := plainMessage f
    hint := ((f.param? "bestMatch").filter Value.isSet).map fun best =>
      "Closest alternative failed because: " ++ best.text }

/-- Advice on a finding by its keyword. -/
def ofKeyword (hints : Hints) (f : Finding) (context : AdviceContext) :
    Except AdviceFault Advice :=
  match f.keyword with
  | "additionalProperties" => .ok (ofUndeclared hints f context)
  | "enum" => ofEnum hints f
  | "pattern" => ofPattern hints f context
  | "required" => ofMissing hints f context
  | "type" => .ok (ofType f)
  | "oneOf" | "anyOf" => .ok (ofChoice f)
  | _ => .ok { message := plainMessage f }

end FindingAdvice

/-- Why a finding cannot be explained. -/
inductive ExplanationFault where
  | context (cause : ContextFault)
  | tooLong
deriving Inhabited

namespace Finding

/-- The advice on a finding, in a given context or that of the violated schema. -/
def advice (f : Finding) (hints : Schema.Hints) (context : Option AdviceContext) :
    Except ExplanationFault Advice := do
  let context ← match context with
    | some c => pure c
    | none => (AdviceContext.ofFinding f).mapError .context
  match FindingAdvice.ofKeyword hints f context with
  | .ok a => return a
  | .error .unusable => return { message := FindingAdvice.plainMessage f }
  | .error .tooLong => throw .tooLong

/-- The place of a finding: an undeclared property is itself the place. -/
def place (f : Finding) : String :=
  match f.keyword, f.param? "additionalProperty" with
  | "additionalProperties", some name => Pointer.join f.path (.key name.text)
  | _, _ => f.path

/-- The diagnostic of a finding, located in a document. -/
def diagnostic (f : Finding) (hints : Schema.Hints) (document : Option Document)
    (context : Option AdviceContext) : Except ExplanationFault Diagnostic := do
  let a ← f.advice hints context
  return { a with
    code := .schema f.keyword, path := some f.place
    filepath := document.map Document.filepath
    span := document.bind fun d => d.location? f.place }

end Finding

end BusinessModel
