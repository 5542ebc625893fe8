import BusinessModel.Service
import BusinessModel.Settings

/-!
Starting a service from settings. The level of logging is looked at before schemas are loaded.
-/

namespace BusinessModel

/-- Why a service cannot be started. -/
inductive StartError where
  | unknownLevel (name : String)
  | schemas (cause : SchemaSetError)
deriving Inhabited

/-- The report on a level of logging that does not exist. -/
def StartError.levelMessage (name : String) : String :=
  "Unknown level: " ++ Text.quote (Text.upper name)

/-- A service with the level of its logging. -/
structure Started where
  level : LogLevel
  service : Service
deriving Inhabited

/-- The schemas of the directory that the settings name, among the given files; else the bundled
ones. -/
def Settings.schemas (s : Settings) (files : List (List String × SchemaFile)) :
    Except SchemaSetError SchemaSet :=
  match s.schemasDir with
  | some name => SchemaDirectory.load { name, files }
  | none => .ok SchemaSet.bundled

/-- Starts a service; the directory of schemas is looked for among the given files. -/
def Settings.start (s : Settings) (files : List (List String × SchemaFile)) :
    Except StartError Started := do
  match LogLevel.ofName? s.logLevel with
  | none => throw (.unknownLevel s.logLevel)
  | some level =>
    let schemas ← (s.schemas files).mapError .schemas
    return { level, service := { schemas, strict := s.strict, suppressUnused := s.suppressUnused } }

end BusinessModel
