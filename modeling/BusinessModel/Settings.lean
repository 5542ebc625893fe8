import BusinessModel.Document.Kind
import BusinessModel.Settings.EnvFile
import BusinessModel.Value

/-!
Settings, from up to three sources: arguments, the variables of the environment, and a file of
assignments. A setting that several sources have is taken from the first of them.

The variables are named like the settings, with the name of the program in front; case does not
matter.
-/

namespace BusinessModel

/-- The settings. Without a directory of schemas the bundled ones are used. -/
structure Settings where
  logLevel : String := "INFO"
  schemasDir : Option String := none
  strict : Bool := false
  suppressUnused : Bool := false
deriving DecidableEq, Repr, Inhabited

/-- What is wrong with the value of a setting. -/
inductive SettingFault where
  /-- A value that is no word for true or false, nor zero or one. -/
  | noTruthWord
  /-- A value of a type that never stands for true or false. -/
  | noTruthValue
  | noText
  | noPath
deriving DecidableEq, Repr

namespace Settings

/-- The names of the settings, in order. -/
def names : List String := ["log_level", "schemas_dir", "strict", "suppress_unused_warnings"]

/-- What stands in front of the name of a setting in that of a variable. -/
def variableStart : String := "ubml_"

/-- The settings that variables make, by the names of the settings. Of variables whose names differ
only in case the last one counts. -/
def ofVariables (given : List (String × Option String)) : List (String × Value) :=
  names.filterMap fun name =>
    let matching := given.filter fun v => Text.lower v.1 == variableStart ++ name
    (matching.getLast?.bind (·.2)).map fun v => (name, .str v)

/-- Words for true and for false. -/
def truthWords : List (String × Bool) :=
  [("1", true), ("t", true), ("y", true), ("on", true), ("yes", true), ("true", true),
   ("0", false), ("f", false), ("n", false), ("off", false), ("no", false), ("false", false)]

/-- The small letters for the capital ones from A to Z. -/
def smallLetters (s : String) : String := String.ofList (s.toList.map Char.toLower)

/-- Numbers from this one on have no whole value to compare with zero and one. -/
def wholeBound : Nat := Nat.pow 2 63

/-- The truth value that a value stands for. -/
def truth : Value → Except SettingFault Bool
  | .bool b => .ok b
  | .str s =>
    match truthWords.lookup (smallLetters s) with
    | some b => .ok b
    | none => .error .noTruthWord
  | .int n => if n == 0 then .ok false else if n == 1 then .ok true else .error .noTruthWord
  | .float x =>
    match x.toInt? with
    | some n =>
      if n == 0 then .ok false
      else if n == 1 then .ok true
      else if n.natAbs < wholeBound then .error .noTruthWord
      else .error .noTruthValue
    | none => .error .noTruthValue
  | _ => .error .noTruthValue

/-- The text that a value is. -/
def text : Value → Except SettingFault String
  | .str s => .ok s
  | _ => .error .noText

/-- The path that a value is; nothing stands for none. -/
def path : Value → Except SettingFault (Option String)
  | .null => .ok none
  | .str s => .ok (some (FilePath.normalize s))
  | _ => .error .noPath

/-- The value of a setting, or its default. -/
def valueOf {α : Type} (given : List (String × Value)) (name : String) (default : α)
    (read : Value → Except SettingFault α) : Except SettingFault α :=
  match given.lookup name with
  | some v => read v
  | none => .ok default

/-- The fault of a setting, with its name. -/
def fault {α : Type} (name : String) : Except SettingFault α → List (String × SettingFault)
  | .ok _ => []
  | .error e => [(name, e)]

/-- The settings with the given values, or all faults in the order of the settings. -/
def ofValues (given : List (String × Value)) : Except (List (String × SettingFault)) Settings :=
  let logLevel := valueOf given "log_level" "INFO" text
  let schemasDir := valueOf given "schemas_dir" none path
  let strict := valueOf given "strict" false truth
  let suppressUnused := valueOf given "suppress_unused_warnings" false truth
  match logLevel, schemasDir, strict, suppressUnused with
  | .ok logLevel, .ok schemasDir, .ok strict, .ok suppressUnused =>
    .ok { logLevel, schemasDir, strict, suppressUnused }
  | _, _, _, _ =>
    .error (fault "log_level" logLevel ++ fault "schemas_dir" schemasDir ++ fault "strict" strict ++
      fault "suppress_unused_warnings" suppressUnused)

/-- The settings from arguments, the environment and a file of assignments. -/
def read (arguments : List (String × Value)) (environment : List (String × String))
    (envFile : Option String) : Except (List (String × SettingFault)) Settings :=
  let environment := Keyed.ofList (environment.map fun (n, v) => (n, some v))
  let assigned := (envFile.map (EnvFile.read environment)).getD []
  ofValues (arguments ++ ofVariables environment ++ ofVariables assigned)

end Settings

/-- How important a message has to be to be logged. -/
inductive LogLevel where
  | all
  | debug
  | info
  | warning
  | error
  | critical
deriving DecidableEq, Repr, Inhabited

namespace LogLevel

/-- The number of a level. -/
def number : LogLevel → Nat
  | all => 0
  | debug => 10
  | info => 20
  | warning => 30
  | error => 40
  | critical => 50

/-- The names of the levels. -/
def byName : List (String × LogLevel) :=
  [("NOTSET", all), ("DEBUG", debug), ("INFO", info), ("WARN", warning), ("WARNING", warning),
   ("ERROR", error), ("FATAL", critical), ("CRITICAL", critical)]

/-- The level of a name, in capital or small letters. -/
def ofName? (name : String) : Option LogLevel := byName.lookup (Text.upper name)

end LogLevel

end BusinessModel
