import DocTable.Client.Read
import DocTable.Client.Write
import DocTable.Command.Invocation
import DocTable.Command.Source
import DocTable.Document.Parse

/-!
# Tasks

What the flags of a command ask for: an operation on a table with one or two documents.  A task is
either compiled, which shows the request, or performed by the client of the table.
-/

namespace DocTable.Command

set_option autoImplicit false

/-- Why a command fails. -/
inductive CommandError where
  | usage (cause : UsageError)
  | config (cause : ConfigError)
  | unknownOperation (name : String)
  | document (flag : String) (cause : DocumentError)
  | withoutUpdate (operation : Operation)
  | source (cause : SourceError)
  | tableNotFound (name : String)
  | compile (cause : CompileError)
  /-- A store cannot be kept in a directory, because a file is in its way. -/
  | storeDirectory (directory lockFile : String) (kind : FileKind)
  | store (cause : StoreError)
  | client (cause : ClientError)
  | withoutDirectives
  | withDirectives
  /-- The tables of a remote service are out of reach. -/
  | remote
  | requestText (cause : InterchangeError)
  | resultText (cause : InterchangeError)

/-- The wording of a command error. -/
def CommandError.message : CommandError → String
  | .usage cause => cause.message
  | .config cause => cause.message
  | .unknownOperation name => Operation.unknownName name
  | .document flag cause => flag ++ ": " ++ cause.message
  | .withoutUpdate operation => operation.name ++ " needs --update"
  | .source cause => cause.message
  | .tableNotFound name => "table " ++ Text.quoted name ++ " is not in the schema"
  | .compile cause => cause.message
  | .storeDirectory _ lockFile .file => "open badger db: Cannot write pid file " ++
    Text.quoted lockFile ++ " error: open " ++ lockFile ++ ": not a directory"
  | .storeDirectory directory _ _ => "open badger db: Invalid Dir: " ++ Text.quoted directory ++
    " error: stat " ++ directory ++ ": not a directory"
  | .store cause => cause.message
  | .client cause => cause.message
  | .withoutDirectives =>
    "update needs $set, $inc or $unset directives; use --op replace for whole items"
  | .withDirectives => "replace needs a plain item; use --op update for directives"
  | .remote => "load aws config: no remote service is available"
  | .requestText cause => Request.jsonError cause
  | .resultText cause => cause.message

/-- An operation on a table. -/
structure Task where
  table : String
  operation : Operation
  document : Document
  update : Document
  deriving Repr

namespace Task

/-- The document of a flag; an empty text is an empty document. -/
def documentOf (flag text : String) : Except CommandError Document :=
  if text = "" then .ok [] else (Document.parse text).mapError (.document flag)

/-- The task that a command line asks for. -/
def ofLine (l : Line) : Except CommandError Task :=
  let name := l.text "op" "query"
  match Operation.ofName? name with
  | none => .error (.unknownOperation name)
  | some operation => do
    let document ← documentOf "--doc" (l.text "doc" "")
    let update ← documentOf "--update" (l.text "update" "")
    if (operation = .update ∨ operation = .replace) ∧ l.text "update" "" = "" then
      throw (.withoutUpdate operation)
    return ⟨l.text "table" "", operation, document, update⟩

/-- The request of a task. -/
def request (t : Task) (file : SchemaFile) : Except CommandError Request :=
  match file.table? t.table with
  | none => .error (.tableNotFound t.table)
  | some entry => do
    let c ← (Compiler.new (some entry.schema) entry.params).mapError .compile
    (c.compile t.operation t.document t.update []).mapError .compile

/-- An item as a value. -/
def itemValue : Option (Fields Value) → Value
  | none => .null
  | some fields => .map fields

/-- The answer of a client to a task. -/
def perform (t : Task) (client : TableClient) (s : Session) :
    Session × Except CommandError Value :=
  match t.operation with
  | .insert => answer itemValue (client.put s t.document [])
  | .query | .scan =>
    answer (fun items => .list (items.map .map)) (client.find s t.document [])
  | .delete => answer itemValue (client.delete s t.document [])
  | .update =>
    if t.update.hasDirectives then answer itemValue (client.update s t.document t.update [])
    else (s, .error .withoutDirectives)
  | .replace =>
    if t.update.hasDirectives then (s, .error .withDirectives)
    else answer itemValue (client.update s t.document t.update [])
  | op => (s, .error (.unknownOperation op.name))
where
  /-- The answer as a value, its failure as a failure of the command. -/
  answer {α : Type} (f : α → Value) (r : Session × Except ClientError α) :
      Session × Except CommandError Value :=
    (r.1, (r.2.map f).mapError .client)

/-- A client of the task's table, whose requests start from the parameters in the schema file. -/
def client (t : Task) (store : Store) (file : SchemaFile) : Except CommandError TableClient := do
  let client ← (TableClient.connect store t.table).mapError .client
  return match file.table? t.table with
    | some entry => client.addParams entry.params
    | none => client

end Task

/-- The line that describes a table: its keys and the hash keys of its indexes. -/
def tableLine (t : TableSchema) : String :=
  t.name ++ "\thash=" ++ t.hash.name ++ ":" ++ t.hash.kind ++
    (if t.hasRange then "\trange=" ++ t.range.name ++ ":" ++ t.range.kind else "") ++
    String.join (t.indexes.map fun i => "\t" ++ i.name ++ "(" ++ i.hash.name ++ ")") ++ "\n"

/-- The lines that describe the tables of a schema file. -/
def tableLines (file : SchemaFile) : String :=
  String.join (file.tables.map fun entry => tableLine entry.schema)

end DocTable.Command
