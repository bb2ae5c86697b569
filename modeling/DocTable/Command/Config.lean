import DocTable.Command.Host
import DocTable.Command.Location
import DocTable.Yaml.Content

/-!
# The configuration file

Defaults for the flags, in a file `ddb.yaml` in the working directory or in one of the directories
above it; the nearest one counts.  Locations in it are seen from the directory of the file.
-/

namespace DocTable.Command

set_option autoImplicit false

open Yaml (Fault)

/-- The defaults of a configuration file. -/
structure Config where
  schema : String := ""
  dataDirectory : String := ""
  region : String := ""
  log : Log.Config := {}
  deriving DecidableEq, Repr, Inhabited

/-- Why a configuration is refused. -/
inductive ConfigError where
  | unreadable (location : String) (fault : ReadFault)
  | malformed (location : String) (fault : Fault)
  /-- Fields of the log section that have none of their permitted values. -/
  | invalid (location : String) (fields : List String)
  deriving DecidableEq, Repr

/-- The wording of a configuration error. -/
def ConfigError.message : ConfigError → String
  | .unreadable location fault => "read " ++ location ++ ": " ++ fault.message
  | .malformed location fault => "parse " ++ location ++ ": " ++ fault.message
  | .invalid location fields => "invalid " ++ location ++ ": " ++
    "\n".intercalate (fields.map fun field => "Key: 'Config.Log." ++ field ++
      "' Error:Field validation for '" ++ field ++ "' failed on the 'oneof' tag")

namespace Config

/-- The name of the configuration file. -/
def fileName : String := "ddb.yaml"

/-- What a configuration is loaded from. -/
def shape : Yaml.Shape :=
  .record [("schema", .text), ("dataDir", .text), ("region", .text),
    ("log", .record [("enabled", .bool), ("level", .text), ("format", .text)])]

/-- Reads a configuration. -/
def read (text : String) : Except Fault Config := do
  let content ← Yaml.loadText Yaml.plainCaller shape text
  let log := Yaml.recordField "log" content
  return ⟨Yaml.textField "schema" content, Yaml.textField "dataDir" content,
    Yaml.textField "region" content,
    ⟨Yaml.boolField "enabled" log, Yaml.textField "level" log, Yaml.textField "format" log⟩⟩

/-- The levels that a configuration may name. -/
def levels : List String :=
  ["trace", "debug", "info", "warn", "error", "fatal", "panic", "disabled"]

/-- The formats that a configuration may name. -/
def formats : List String := ["json", "console"]

/-- The fields of the log section that are neither empty nor permitted. -/
def violations (c : Config) : List String :=
  (if c.log.level = "" ∨ c.log.level ∈ levels then [] else ["Level"]) ++
    if c.log.format = "" ∨ c.log.format ∈ formats then [] else ["Format"]

/-- A location of the file at a location, seen from the directory of the file. -/
def located (file location : String) : String :=
  if location = "" ∨ Location.isAbsolute location then location
  else Location.join (Location.parent file) location

/-- The configuration of the text of the file at a location. -/
def ofText (location text : String) : Except ConfigError Config :=
  match read text with
  | .error fault => .error (.malformed location fault)
  | .ok c => match violations c with
    | [] => .ok { c with
      schema := located location c.schema
      dataDirectory := located location c.dataDirectory }
    | fields => .error (.invalid location fields)

/-- The places of the configuration file: a directory with the steps from the last to the first, and
those above it. -/
def places : List String → List String
  | [] => [Location.join "/" fileName]
  | step :: above =>
    Location.join (Location.ofSteps true (step :: above).reverse) fileName :: places above

variable {m : Type → Type} [Monad m] [Host m]

/-- The first place where there is something. -/
def find? : List String → m (Option String)
  | [] => return none
  | place :: others => do
    match ← Host.kind place with
    | .missing => find? others
    | .blocked => return none
    | _ => return some place

/-- Loads the nearest configuration with its location; without one, all defaults are empty. -/
def load : m (Except ConfigError (Config × Option String)) := do
  let directory ← Host.workingDirectory
  match ← find? (places (Location.steps directory).reverse) with
  | none => return .ok ({}, none)
  | some place => match ← readFile place with
    | .error fault => return .error (.unreadable place fault)
    | .ok text => return (ofText place text).map fun c => (c, some place)

end Config

end DocTable.Command
