import DocTable.Client.Basic

/-!
# Reading through a client

Items are found by a filter, or one item is got by its key.  A filter that tells the hash key of the
table or of an index is answered by a query, any other by a scan; only the first page is read.
-/

namespace DocTable.TableClient

set_option autoImplicit false

/-- The values of several items. -/
def decodedAll : List Item → Except ClientError (List (Fields Value))
  | [] => .ok []
  | item :: rest => do
    let values ← item.decode.mapError .decode
    return values :: (← decodedAll rest)

/-- Sends a reading request to the store of a session. -/
def page (s : Session) (p : Prepared) (record : Log.Record)
    (perform : Store → TypedRequest → Except StoreError PageOutput) :
    Session × Except ClientError (List (Fields Value)) :=
  let s := s.note record
  match perform s.store p.input with
  | .error cause => (s, .error (.store p.operation cause))
  | .ok output => (s, decodedAll output.items)

/-- The items that match a filter. -/
def find (t : TableClient) (s : Session) (filter : Document) (options : List RequestOption) :
    Session × Except ClientError (List (Fields Value)) :=
  match t.schema.accessPath filter with
  | .scan => match t.prepare .scan filter [] options with
    | .error e => (s, .error e)
    | .ok p => page s p (t.dispatch Operation.scan.name
      [("filter", Params.text p.request "FilterExpression")]) Store.scan
  | path => match t.prepare .query filter [] options with
    | .error e => (s, .error e)
    | .ok p => page s p (t.dispatch Operation.query.name
      [("path", path.mode), ("index", match path with | .index name => name | _ => ""),
        ("key_condition", Params.text p.request "KeyConditionExpression")]) Store.query

/-- The request for the item with a key.  Only the key attributes of the document count. -/
def getInput (t : TableClient) (key : Document) : Except ClientError TypedRequest := do
  let attributes ← key.encode.mapError .encode
  let key ← (t.schema.extractKey attributes).mapError .key
  return { tableName? := some t.schema.name, key? := some key, consistentRead? :=
    match Keyed.lookup "ConsistentRead" t.base with
    | some (.bool value) => some value
    | _ => none }

/-- The stored item with a key. -/
def getItem (t : TableClient) (s : Session) (key : Document) :
    Session × Except ClientError (Option Item) :=
  match t.getInput key with
  | .error e => (s, .error e)
  | .ok input =>
    let s := s.note (t.dispatch "get" [])
    match s.store.get input with
    | .error cause => (s, .error (.get cause))
    | .ok output => (s, .ok output.item?)

/-- The values of the item with a key. -/
def get (t : TableClient) (s : Session) (key : Document) :
    Session × Except ClientError (Option (Fields Value)) :=
  let (s, found) := t.getItem s key
  (s, found.bind decoded)

/-- The item with a key, read into a shape of the caller's choice. -/
def getAs {α : Type} (read? : Item → Option α) (t : TableClient) (s : Session) (key : Document) :
    Session × Except ClientError (Option α) :=
  let (s, found) := t.getItem s key
  (s, found.bind fun
    | none => .ok none
    | some item => match read? item with
      | some value => .ok (some value)
      | none => .error .shape)

end DocTable.TableClient
