import DocTable.Command.Config
import DocTable.Table.File

/-!
# Where schemas come from

A command takes the schema file that its flag names, or else the one that the configuration names,
or else every file of a fixed name below the working directory, apart from those in directories that
belong to other tools.  The tables of several files are put together and checked once more.
-/

namespace DocTable.Command

set_option autoImplicit false

/-- Why no schema is found. -/
inductive SourceError where
  | unreadable (fault : ReadFault)
  | file (location : String) (cause : SchemaError)
  | merged (cause : SchemaError)
  | none
  deriving DecidableEq, Repr

/-- The name of schema files that are found without being named. -/
def schemaFileName : String := "schema_dynamodb.yaml"

/-- The wording of a source error. -/
def SourceError.message : SourceError → String
  | .unreadable fault => "read schema: " ++ fault.message
  | .file location cause => location ++ ": " ++ cause.message
  | .merged cause => cause.message
  | .none => "no schema: pass --schema or add " ++ schemaFileName

namespace Source

/-- Directories in which no schema file is looked for. -/
def skipped : List String := [".git", "node_modules", "vendor", ".ddb"]

/-- Whether the steps of a file below the working directory lead to a schema file. -/
def isSchema (steps : List String) : Bool :=
  steps.getLast? == some schemaFileName && steps.dropLast.all fun step => !skipped.contains step

/-- The locations of schema files, in the order of a walk that visits names in order. -/
def discovered (directory : String) (files : List (List String)) : List String :=
  (Keyed.ofList ((files.filter isSchema).map fun steps => (steps, ()))).map fun entry =>
    Location.join directory ("/".intercalate entry.1)

variable {m : Type → Type} [Monad m] [Host m]

/-- Loads one schema file. -/
def load (location : String) : m (Except SourceError SchemaFile) := do
  match ← readFile location with
  | .error fault => return .error (.unreadable fault)
  | .ok text => return (SchemaFile.parse text).mapError (.file location)

/-- Loads several schema files and puts their tables together. -/
def loadTables : List String → m (Except SourceError (List TableEntry))
  | [] => return .ok []
  | location :: others => do
    match ← load location with
    | .error e => return .error e
    | .ok file => return (← loadTables others).map fun tables => file.tables ++ tables

/-- Loads several schema files as one. -/
def loadAll (locations : List String) : m (Except SourceError SchemaFile) := do
  match ← loadTables locations with
  | .error e => return .error e
  | .ok tables => return (SchemaFile.validate (some tables)).mapError .merged

/-- Finds the schema of a command. -/
def find (logger : Log.Logger) (flag : String) (config : Config) :
    m (Except SourceError SchemaFile) := do
  if flag ≠ "" then load flag
  else if config.schema ≠ "" then load config.schema
  else
    let directory ← Host.workingDirectory
    let locations := discovered directory (← Host.filesBelow directory)
    if locations.isEmpty then return .error .none
    else
      Host.log logger ⟨.info, [("files", " ".intercalate locations)], "discovered schemas"⟩
      loadAll locations

end Source

end DocTable.Command
