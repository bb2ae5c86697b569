import DocTable.Attribute.Decode
import DocTable.Client.Identifier
import DocTable.Log.Record
import DocTable.Request.Compile
import DocTable.Store.Read
import DocTable.Store.Write

/-!
# Table clients

A client of a table takes documents, compiles them to requests and sends these to a store.  What a
client acts on is a `Session`: the store, the source of identifiers for new items, and the log.  Every
operation answers with the session as it is afterwards, also when it fails.

The schema of a table is not handed in: opening a client asks the store for the description of the
table and reads the schema off it.
-/

namespace DocTable

set_option autoImplicit false

/-! ## Sessions -/

/-- A store with a source of identifiers and the records logged so far. -/
structure Session where
  store : Store
  /-- The octets of the identifiers, by the number of the draw. -/
  source : Nat → Bytes
  drawn : Nat := 0
  records : List Log.Record := []

namespace Session

/-- The next identifier. -/
def draw (s : Session) : Session × String :=
  ({ s with drawn := s.drawn + 1 }, Identifier.ofBytes (s.source s.drawn))

/-- The session with one record more. -/
def note (s : Session) (r : Log.Record) : Session := { s with records := s.records ++ [r] }

end Session

/-! ## Failures -/

/-- What an operation does to a store, as its failures name it. -/
def Operation.task : Operation → String
  | .insert => "put item"
  | .query => "query"
  | .scan => "scan"
  | .delete => "delete item"
  | .update => "update item"
  | .replace => "replace item"
  | op => op.name

/-- Why an operation of a table client fails. -/
inductive ClientError where
  | describe (table : String) (cause : StoreError)
  | description (table : String) (cause : DescriptionError)
  | table (name : String) (cause : CompileError)
  | compile (cause : CompileError)
  | key (cause : KeyError)
  | encode (cause : EncodeError)
  | typed (cause : TypedError)
  | store (operation : Operation) (cause : StoreError)
  | get (cause : StoreError)
  | decode (cause : DecodeError)
  /-- An item does not have the shape that it is read into. -/
  | shape

/-- The wording of a client's error. -/
def ClientError.message : ClientError → String
  | .describe name cause => "describe table " ++ Text.quoted name ++ ": " ++ cause.message
  | .description name cause => "table " ++ Text.quoted name ++ ": " ++ cause.message
  | .table name cause => "table " ++ Text.quoted name ++ ": " ++ cause.message
  | .compile cause => cause.message
  | .key cause => cause.message
  | .encode cause => cause.message
  | .typed cause => cause.message
  | .store operation cause => operation.task ++ ": " ++ cause.message
  | .get cause => "get item: " ++ cause.message
  | .decode cause => cause.message
  | .shape => "decode item: unexpected attribute"

/-! ## Clients -/

/-- A client of one table, with the parameters that all of its requests start from. -/
structure TableClient where
  schema : TableSchema
  base : Params
  deriving Repr

/-- A request that is ready to be sent. -/
structure Prepared where
  operation : Operation
  request : Request
  input : TypedRequest

namespace TableClient

/-- A client of a table that a store has. -/
def connect (store : Store) (name : String) : Except ClientError TableClient := do
  let description ← (store.describe (some name)).mapError (.describe name)
  let schema ← (TableSchema.ofDescription description).mapError (.description name)
  let _ ← (Compiler.new (some schema) []).mapError (.table name)
  return ⟨schema, [("TableName", .text name)]⟩

/-- Sets a parameter of all requests. -/
def addParam (t : TableClient) (key : String) (value : Value) : TableClient :=
  { t with base := Keyed.insert key value t.base }

/-- Sets parameters of all requests. -/
def addParams (t : TableClient) (params : Params) : TableClient :=
  { t with base := Keyed.insertAll t.base params }

/-- Asks for the used capacity in all requests. -/
def returnConsumedCapacity (t : TableClient) : TableClient :=
  t.addParam "ReturnConsumedCapacity" (.text "TOTAL")

/-- Asks for the former item in all requests. -/
def returnOldValues (t : TableClient) : TableClient := t.addParam "ReturnValues" (.text "ALL_OLD")

/-- The request of an operation. -/
def compile (t : TableClient) (op : Operation) (d extra : Document)
    (options : List RequestOption) : Except CompileError Request := do
  let c ← Compiler.new (some t.schema) t.base
  c.compile op d extra options

/-- Compiles a request and gives its parameters their types.  An item that is to be stored has to
carry the key of the table. -/
def prepare (t : TableClient) (op : Operation) (d extra : Document)
    (options : List RequestOption) : Except ClientError Prepared := do
  let request ← (t.compile op d extra options).mapError .compile
  if op = .insert ∨ op = .replace then
    let _ ← (t.schema.extractKey ((Params.attributes? request "Item").getD [])).mapError .key
  let input ← (TypedRequest.ofParams op request).mapError .typed
  return ⟨op, request, input⟩

/-- The record that announces a request. -/
def dispatch (t : TableClient) (op : String) (fields : List (String × String)) : Log.Record where
  level := .debug
  fields := [("table", t.schema.name), ("op", op)] ++ fields
  message := "dispatch"

/-- The values of an item, if there is one. -/
def decoded (item? : Option Item) : Except ClientError (Option (Fields Value)) :=
  match item? with
  | none => .ok none
  | some item => (item.decode.map some).mapError .decode

end TableClient

end DocTable
