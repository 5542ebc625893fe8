import BusinessModel.Schema.Block
import BusinessModel.Text.Keyed

/-!
Advice that schemas give on values that do not meet them.
-/

namespace BusinessModel.Schema

/-- Advice on values that do not match a pattern. -/
structure PatternHint where
  pattern : String
  humanName : String
  hint : String
  sample : Option String := none
  letters : Value := .null
deriving Inhabited

/-- Advice on properties that belong inside another one. -/
structure NestedHint where
  parent : String
  children : List Value
  hint : String
  sample : String
deriving Inhabited

/-- Advice on words that are mistaken for one of several. -/
structure EnumHint where
  values : List String
  mistakes : List (String × String) := []
  properties : List String := []
deriving DecidableEq, Repr, Inhabited

/-- Advice on a property that is missing. -/
structure RequiredHint where
  hint : String
  sample : Value := .null
deriving Inhabited

/-- All the advice of a set of schemas. -/
structure Hints where
  patterns : List PatternHint := []
  nested : List NestedHint := []
  enums : List EnumHint := []
  required : List (String × RequiredHint) := []
deriving Inhabited

namespace NestedHint

/-- The characters with every occurrence of `word` replaced, from left to right. -/
def replaceWord (word replacement : List Char) : Nat → List Char → List Char
  | 0, cs => cs
  | fuel + 1, cs =>
    match cs with
    | [] => []
    | c :: rest =>
      if !word.isEmpty && word.isPrefixOf cs then
        replacement ++ replaceWord word replacement fuel (cs.drop word.length)
      else c :: replaceWord word replacement fuel rest

/-- The example for one of the properties. -/
def exampleFor (h : NestedHint) (property : String) : String :=
  let cs := h.sample.toList
  String.ofList (replaceWord "\x7bproperty\x7d".toList property.toList (cs.length + 1) cs)

end NestedHint

/-- Whether two lists have the same members. -/
def sameMembers (a b : List String) : Bool := a.all b.contains && b.all a.contains

namespace Hints

/-- The advice on a pattern. -/
def patternHint? (h : Hints) (pattern : String) : Option PatternHint :=
  h.patterns.find? (·.pattern == pattern)

/-- The advice on a property that belongs inside another one. -/
def nestedHint? (h : Hints) (property : String) : Option NestedHint :=
  h.nested.find? fun n => n.children.any (Value.str property).same

/-- The advice on a wrong word. What is known of the place where it stands decides which choices are
looked at first: those of exactly the allowed words, then those of the property, then those that
share one of the allowed words. -/
def enumMistake? (h : Hints) (value : String) (allowed : List Value) (property : Option String) :
    Option String :=
  let allowed := allowed.map Value.text
  let exact := h.enums.filter fun e => !allowed.isEmpty && sameMembers e.values allowed
  let named := h.enums.filter fun e => property.any fun p => !p.isEmpty && e.properties.contains p
  let sharing := h.enums.filter fun e => allowed.any e.values.contains
  (exact ++ named ++ sharing).findSome? (·.mistakes.lookup value)

/-- The words of the first choice for a property. -/
def enumValues? (h : Hints) (property : String) : Option (List String) :=
  (h.enums.find? (·.properties.contains property)).map (·.values)

end Hints

namespace Block

mutual

/-- The mappings in a value, the outer before the inner ones. -/
def mappings : Value → List (List (Value × Value))
  | .scalar _ => []
  | .list items => mappingsOfItems items
  | .map entries => entries :: mappingsOfEntries entries

/-- The mappings in items. -/
def mappingsOfItems : List Value → List (List (Value × Value))
  | [] => []
  | v :: rest => mappings v ++ mappingsOfItems rest

/-- The mappings in the values of entries. -/
def mappingsOfEntries : List (Value × Value) → List (List (Value × Value))
  | [] => []
  | (_, v) :: rest => mappings v ++ mappingsOfEntries rest

end

/-- The advice that a schema gives on its pattern. -/
def patternHint? (schema : List (Value × Value)) : Except Malformed (Option PatternHint) := do
  match Value.lookup "pattern" schema, Value.lookup "x-ubml" schema with
  | some pattern, some (.map about) =>
    match Value.lookup "errorHint" about with
    | none => return none
    | some hint =>
      let samples := (Value.lookup "examples" schema).filter Value.isSet
      let sample ← samples.mapM first
      return some {
        pattern := pattern.text, humanName := textOr about "humanName" "value", hint := hint.text
        sample := sample.map Value.text, letters := (Value.lookup "prefix" about).getD .null }
  | _, _ => return none

/-- The hints, one for each pattern, the first. -/
def distinctPatterns (hints : List PatternHint) : List PatternHint :=
  (hints.foldl (fun seen h => if seen.any (·.pattern == h.pattern) then seen else h :: seen)
    []).reverse

/-- The advice on patterns in schemas. -/
def patternHints (schemas : List Value) : Except Malformed (List PatternHint) := do
  let found ← (schemas.flatMap mappings).mapM patternHint?
  return distinctPatterns (found.filterMap id)

/-- The metadata of a definition. -/
def about (definition : Value) : Option Value := definition.get? "x-ubml"

/-- The advice on properties that belong inside another one. -/
def nestedHints (definitions : List (Value × Value)) : Except Malformed (List NestedHint) := do
  let found ← definitions.mapM fun (_, definition) => do
    match ← entriesWith? (about definition) "parentProperty" with
    | none => return none
    | some es =>
      return some {
        parent := textOr es "parentProperty" "", hint := textOr es "misplacementHint" ""
        children := ← members (Value.lookup "nestedProperties" es)
        sample := textOr es "misplacementExample" "" : NestedHint }
  return found.filterMap id

/-- The advice on missing properties. -/
def requiredHints (block : Option Value) : Except Malformed (List (String × RequiredHint)) := do
  let hints ← (← entries block).mapM fun (name, hint) =>
    match hint with
    | .map es =>
      let advice : RequiredHint :=
        { hint := textOr es "hint" "", sample := (Value.lookup "example" es).getD .null }
      Except.ok (name.text, advice)
    | _ => .error .noEntries
  return Keyed.ofList hints

/-- The advice that a schema gives on wrong words, for the properties that it is used for. -/
def enumHint (schema : Value) (properties : List String) : Except Malformed EnumHint := do
  let values ← match schema.get? "enum" with
    | some (.scalar .null) => throw .wrongType
    | some (.scalar (.str s)) => members (some (.str s))
    | some (.scalar _) => throw .wrongType
    | collection => members collection
  let about ← entries (schema.get? "x-ubml")
  let mistakes ← (← entries (Value.lookup "valueMistakes" about)).mapM fun (word, advice) =>
    match advice with
    | .map es => Except.ok (word.text, textOr es "hint" "")
    | _ => .error .noEntries
  return { values := values.map Value.text, mistakes := Keyed.ofList mistakes, properties }

end Block

end BusinessModel.Schema
