import BusinessModel.Diagnostic.Code
import BusinessModel.Document.SourceMap
import BusinessModel.Text.Blank
import BusinessModel.Text.Quoted

/-!
Diagnostics: located errors and warnings with advice, their texts, and the results that they add up
to.
-/

namespace BusinessModel

/-- How much a diagnostic weighs. -/
inductive Severity where
  | error
  | warning
deriving DecidableEq, Repr, Inhabited

namespace Severity

/-- The word for a severity. -/
def text : Severity → String
  | error => "error"
  | warning => "warning"

/-- The severity of a word. -/
def ofText? (s : String) : Option Severity := [error, warning].find? (·.text == s)

end Severity

/-- Another place that a diagnostic is about. -/
structure Related where
  filepath : String
  path : Option String := none
  span : Option Span := none
deriving DecidableEq, Repr, Inhabited

/-- A message with advice. -/
structure Advice where
  message : String
  suggestion : Option String := none
  hint : Option String := none
  sample : Option String := none
  validOptions : List String := []
deriving DecidableEq, Repr, Inhabited

/-- An error or a warning, with its place as far as it is known, and advice. -/
structure Diagnostic extends Advice where
  code : Code
  severity : Severity := .error
  filepath : Option String := none
  path : Option String := none
  span : Option Span := none
  related : List Related := []
deriving DecidableEq, Repr, Inhabited

namespace Advice

/-- How many options are listed. -/
def maxOptions : Nat := 12

/-- A line with a label, unless there is nothing to say. -/
def labelledLine (label : String) (text : Option String) : List String :=
  match text with
  | some t => if t.isEmpty then [] else ["  " ++ label ++ ": " ++ t]
  | none => []

/-- The lines of an example, indented below a label. -/
def sampleLines (text : Option String) : List String :=
  match text with
  | some t => if t.isEmpty then [] else "  Example:" :: (Text.lines t).map ("    " ++ ·)
  | none => []

/-- The line of the options; of many only the first are listed and the others counted. -/
def optionLines (options : List String) : List String :=
  if options.isEmpty then []
  else
    let shown := ", ".intercalate (options.take maxOptions)
    let hidden := options.length - maxOptions
    ["  Valid options: " ++ shown ++
      (if hidden > 0 then ", … " ++ Text.natText hidden ++ " more" else "")]

/-- The message and below it whatever advice there is. -/
def render (a : Advice) : String :=
  "\n".intercalate (a.message :: (labelledLine "Suggestion" a.suggestion ++
    labelledLine "Hint" a.hint ++ sampleLines a.sample ++ optionLines a.validOptions))

end Advice

namespace Diagnostic

/-- The diagnostic as a warning. -/
def asWarning (d : Diagnostic) : Diagnostic := { d with severity := .warning }

/-- The diagnostic as an error. -/
def asError (d : Diagnostic) : Diagnostic := { d with severity := .error }

/-- The file, with line and column if they are known. -/
def location (d : Diagnostic) : String :=
  let file := match d.filepath with
    | some f => if f.isEmpty then "<unknown>" else f
    | none => "<unknown>"
  match d.span with
  | some s => file ++ ":" ++ Text.intText s.line ++ ":" ++ Text.intText s.column
  | none => file

/-- The diagnostic with its place, weight and code in front. -/
def render (d : Diagnostic) : String :=
  d.location ++ " " ++ d.severity.text ++ " " ++ d.code.text ++ " " ++ d.toAdvice.render

end Diagnostic

/-- The result of checking documents. -/
structure ValidationResult where
  errors : List Diagnostic := []
  warnings : List Diagnostic := []
deriving DecidableEq, Repr, Inhabited

namespace ValidationResult

/-- Whether nothing is wrong. -/
def valid (r : ValidationResult) : Bool := r.errors.isEmpty

/-- The result of errors and warnings. A strict one takes warnings for errors. -/
def ofDiagnostics (errors warnings : List Diagnostic) (strict : Bool) : ValidationResult :=
  if strict then ⟨errors ++ warnings.map Diagnostic.asError, []⟩ else ⟨errors, warnings⟩

/-- A result with the diagnostics of another one behind its own. -/
def append (a b : ValidationResult) : ValidationResult :=
  ⟨a.errors ++ b.errors, a.warnings ++ b.warnings⟩

instance : Append ValidationResult := ⟨append⟩

/-- A result as a strict one, or as it is. -/
def graded (r : ValidationResult) (strict : Bool) : ValidationResult :=
  ofDiagnostics r.errors r.warnings strict

end ValidationResult

end BusinessModel
