import DocTable.Expression.Context
import DocTable.Request.Typed
import DocTable.Store.Key
import DocTable.Store.Stored
import DocTable.Table.Description

/-!
# The store

A store holds the items of several tables under their storage keys, in the order of these keys.  This
module has the store itself, why its operations fail, and what all of them have in common: finding
the table, and the names and values of a request's placeholders.
-/

namespace DocTable

set_option autoImplicit false

/-- Tables by name, and stored items by storage key. -/
structure Store where
  tables : Fields TableSchema
  entries : List (Bytes × StoredItem)
  deriving Repr, Inhabited

/-- Why an operation of a store fails. -/
inductive StoreError where
  | withoutHashKey
  | missingInput
  | missingItem
  | missingUpdate
  | missingKeyCondition
  | missingTableName
  | tableNotFound (name : String)
  | invalidItem (cause : KeyError)
  | invalidKey (cause : KeyError)
  | key (cause : KeyEncodingError)
  | unsupported (name typeName : String)
  | condition (cause : ExpressionError)
  | conditionFailed
  | update (cause : ExpressionError)
  | keyAttribute (name : String)
  | action (cause : ExpressionError)
  | reservedKey
  | indexNotFound (table name : String)
  | keyCondition (cause : ExpressionError)
  | hashValue (cause : KeyError)
  | withoutHashEquality (name : String)
  | partition (cause : KeyEncodingError)
  | startKeyNotFound
  | filter (cause : ExpressionError)
  | projection (cause : ExpressionError)
  deriving DecidableEq, Repr

/-- The wording of a store error. -/
def StoreError.message : StoreError → String
  | .withoutHashKey => "table schema without hash key"
  | .missingInput => "params is required"
  | .missingItem => "item is required"
  | .missingUpdate => "update expression is required"
  | .missingKeyCondition => "key condition expression is required"
  | .missingTableName => "table name is required"
  | .tableNotFound name =>
    "ResourceNotFoundException: Requested resource not found: Table: " ++ name ++ " not found"
  | .invalidItem cause => "validate item: " ++ cause.message
  | .invalidKey cause => "invalid key: " ++ cause.message
  | .key cause => "encode key: " ++ cause.message
  | .unsupported name typeName =>
    "attribute " ++ Text.quoted name ++ ": unsupported attribute value type " ++ typeName
  | .condition cause => "evaluate condition: " ++ cause.message
  | .conditionFailed => "ConditionalCheckFailedException: The conditional request failed"
  | .update cause => "parse update: " ++ cause.message
  | .keyAttribute name => "cannot update key attribute " ++ Text.quoted name
  | .action cause => cause.message
  | .reservedKey => "Key is using a reserved !badger! prefix"
  | .indexNotFound table name =>
    "table " ++ Text.quoted table ++ " has no index " ++ Text.quoted name
  | .keyCondition cause => "parse key condition: " ++ cause.message
  | .hashValue cause => cause.message
  | .withoutHashEquality name =>
    "key condition must test hash key " ++ Text.quoted name ++ " for equality"
  | .partition cause => cause.message
  | .startKeyNotFound => "exclusive start key does not match any item"
  | .filter cause => "parse filter: " ++ cause.message
  | .projection cause => cause.message

/-- The capacity that an operation has used, if the caller asked for it: one unit of the table. -/
structure Capacity where
  table : String
  deriving DecidableEq, Repr

/-- What a write or the reading of one item answers. -/
structure ItemOutput where
  item? : Option Item
  capacity? : Option Capacity
  deriving Repr

/-- What the reading of several items answers. -/
structure PageOutput where
  items : List Item
  count : Nat
  scanned : Nat
  lastKey? : Option Item
  capacity? : Option Capacity
  deriving Repr

/-- The context of a request's placeholders. -/
def TypedRequest.context (r : TypedRequest) : Context := ⟨r.names?.getD [], r.values?.getD []⟩

/-- The used capacity, as far as a request asks for it. -/
def TypedRequest.capacity? (r : TypedRequest) (t : TableSchema) : Option Capacity :=
  if r.returnConsumedCapacity = "" ∨ r.returnConsumedCapacity = "NONE" then none
  else some ⟨t.name⟩

namespace Store

/-- Registers tables in order; a later one takes the place of an earlier one of its name. -/
def register (tables : Fields TableSchema) :
    List (Option TableSchema) → Except StoreError (Fields TableSchema)
  | [] => .ok tables
  | none :: _ => .error .withoutHashKey
  | some t :: rest =>
    if t.hash.isDefined then register (Keyed.insert t.name t tables) rest
    else .error .withoutHashKey

/-- A store for tables with the given entries. -/
def openWith (entries : List (Bytes × StoredItem)) (schemas : List (Option TableSchema)) :
    Except StoreError Store := do
  let tables ← register [] schemas
  return ⟨tables, entries⟩

/-- An empty store for tables. -/
def new (schemas : List (Option TableSchema)) : Except StoreError Store := openWith [] schemas

/-- The table that a request names. -/
def table (s : Store) (name? : Option String) : Except StoreError TableSchema :=
  match name? with
  | none => .error .missingTableName
  | some name => match Keyed.lookup name s.tables with
    | some t => .ok t
    | none => .error (.tableNotFound name)

/-- The description of a table. -/
def describe (s : Store) (name? : Option String) : Except StoreError TableDescription := do
  let t ← s.table name?
  return t.description

/-- The item at a storage key. -/
def load (s : Store) (key : Bytes) : Option Item :=
  (Keyed.lookup key s.entries).bind StoredItem.item?

/-- The key of the item that a request addresses, and where the item is stored. -/
def address (t : TableSchema) (r : TypedRequest) : Except StoreError (Item × Bytes) :=
  match t.extractKey (r.key?.getD []) with
  | .error cause => .error (.invalidKey cause)
  | .ok key => match t.storageKey key with
    | .error cause => .error (.key cause)
    | .ok place => .ok (key, place)

end Store

end DocTable
