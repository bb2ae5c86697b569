import DocTable.Command.Task

/-!
# Executing a command

The steps of every command: read the arguments, load the configuration, check the flags, and then do
what the command is for.  The answer is the text to print, or the reason of a failure.
-/

namespace DocTable.Command

set_option autoImplicit false

/-- What the program can do. -/
def usage : String :=
  "Usage:\n" ++
  "  ddb compile --table NAME [--op OP] [--doc DOCUMENT] [--update DOCUMENT]\n" ++
  "  ddb run --table NAME [--op OP] [--doc DOCUMENT] [--update DOCUMENT] [--db DIR | --memory]\n" ++
  "  ddb tables\n\n" ++
  "Flags of all commands:\n" ++
  "  --schema FILE      table schema file\n" ++
  "  --log-level LEVEL  log level\n"

/-- A value as the text to print. -/
def printed (j : Json) : String := j.indented 0 ++ "\n"

variable {m : Type → Type} [Monad m] [Host m]

/-- The logger of a configuration; a level on the command line turns the log on. -/
def loggerOf (l : Line) (c : Config) : Log.Logger :=
  let level := l.text "log-level" ""
  .ofConfig (if level = "" then c.log else { c.log with enabled := true, level := level })

/-- Loads the configuration and tells the log about it. -/
def configure (l : Line) : ExceptT CommandError m (Config × Log.Logger) := do
  match ← (Config.load : m _) with
  | .error e => throw (.config e)
  | .ok (config, place?) =>
    let logger := loggerOf l config
    match place? with
    | some place => (Host.log logger ⟨.info, [("path", place)], "loaded config"⟩ : m Unit)
    | none => pure ()
    return (config, logger)

/-- Finds the schema of a command. -/
def findSchema (l : Line) (config : Config) (logger : Log.Logger) :
    ExceptT CommandError m SchemaFile := do
  match ← (Source.find logger (l.text "schema" "") config : m _) with
  | .error e => throw (.source e)
  | .ok file => return file

/-- The directory in which the store of a command is kept, none for a store in memory. -/
def storeDirectory? (l : Line) (config : Config) : Option String :=
  let directory := if l.text "db" "" = "" then config.dataDirectory else l.text "db" ""
  if l.isOn "memory" || directory = "" then none else some directory

/-- The entries of the store that is kept in a directory. -/
def loadEntries (directory : String) : ExceptT CommandError m (List (Bytes × StoredItem)) := do
  let here ← (Host.workingDirectory : m String)
  match ← (Host.kind directory : m FileKind) with
  | .missing | .directory => (Host.entries (Location.resolve here directory) : m _)
  | kind => throw (.storeDirectory directory (Location.join (Location.resolve here directory) "LOCK")
    kind)

/-- Keeps entries in the directory of a store; a store in memory leaves nothing behind. -/
def keepEntries (directory? : Option String) (entries : List (Bytes × StoredItem)) : m Unit := do
  match directory? with
  | none => pure ()
  | some directory =>
    let here ← (Host.workingDirectory : m String)
    Host.keep (Location.resolve here directory) entries

/-- Opens the store of a command for the tables of a schema file.  From then on its directory is
there, whatever becomes of the task. -/
def openStore (directory? : Option String) (file : SchemaFile) :
    ExceptT CommandError m Store := do
  let entries ← match directory? with
    | none => pure []
    | some directory => loadEntries directory
  (keepEntries directory? entries : m Unit)
  match Store.openWith entries (file.tables.map fun entry => some entry.schema) with
  | .error e => throw (.store e)
  | .ok store => return store

/-- Performs a task on the store of a command, and keeps what the store then holds. -/
def runTask (l : Line) (config : Config) (logger : Log.Logger) : ExceptT CommandError m String := do
  let task ← Task.ofLine l
  if l.isOn "aws" then throw .remote
  let file ← findSchema l config logger
  let directory? := storeDirectory? l config
  (Host.log logger ⟨.info, [("dir", directory?.getD "")], "open local store"⟩ : m Unit)
  let store ← openStore directory? file
  let client ← task.client store file
  (Host.log logger ⟨.info, [("table", task.table), ("op", task.operation.name)], "run"⟩ : m Unit)
  let identifiers ← (Host.identifiers : m _)
  let (session, answer) := task.perform client ⟨store, identifiers, 0, []⟩
  (Host.used session.drawn : m Unit)
  for record in session.records do
    (Host.log logger record : m Unit)
  (keepEntries directory? session.store.entries : m Unit)
  let value ← answer
  match value.interchange with
  | .error e => throw (.resultText e)
  | .ok json => return printed json

/-- Does what a command is for. -/
def perform (i : Invocation) (config : Config) (logger : Log.Logger) :
    ExceptT CommandError m String := do
  match i.name with
  | .tables => return tableLines (← findSchema i.line config logger)
  | .compile =>
    let task ← Task.ofLine i.line
    let request ← task.request (← findSchema i.line config logger)
    match request.json with
    | .error e => throw (.requestText e)
    | .ok json => return printed json
  | .run => runTask i.line config logger
  | .root | .help | .completion => return usage

/-- Executes the program with arguments. -/
def execute (arguments : List String) : ExceptT CommandError m String := do
  let i ← (Invocation.ofArguments arguments).mapError CommandError.usage
  if i.line.isOn "help" || i.name = .help || i.name = .completion then return usage
  if i.name = .root then
    return if i.line.isOn "version" then programName ++ " version " ++ version ++ "\n" else usage
  i.checkArguments.mapError CommandError.usage
  let (config, logger) ← configure i.line
  i.checkFlags.mapError CommandError.usage
  perform i config logger

end DocTable.Command
