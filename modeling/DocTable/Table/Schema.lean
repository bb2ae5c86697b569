import DocTable.Attribute.Basic
import DocTable.Document.Basic
import DocTable.Text.Quoted

/-!
# Table schemas

The key layout of a table: a hash key, perhaps a range key, and the secondary indexes in the order
in which they were registered.  A key names an attribute and the kind of value it must have; a key
without a name is one that the table does not have.

A filter is served by the first way that fits: through the table's hash key, through the first index
whose hash key it names, or by reading the whole table.
-/

namespace DocTable

set_option autoImplicit false

/-! ## Keys -/

/-- A key attribute and the kind of its values. -/
structure KeyDefinition where
  name : String
  kind : String
  deriving DecidableEq, Repr, Inhabited

namespace KeyDefinition

/-- The key that is not there. -/
def none : KeyDefinition := ⟨"", ""⟩

/-- Whether a key is part of its schema. -/
def isDefined (k : KeyDefinition) : Bool := k.name != ""

/-- The kinds that a key can have. -/
def kinds : List String := ["S", "N", "B"]

/-- Whether a key has one of the three kinds. -/
def hasValidKind (k : KeyDefinition) : Bool := kinds.contains k.kind

end KeyDefinition

/-- The kind of a value that can be a key. -/
def AttributeValue.keyKind? : AttributeValue → Option String
  | .s _ | .raw _ => some "S"
  | .n _ => some "N"
  | .b _ => some "B"
  | _ => none

/-- Why an attribute cannot serve as a key. -/
inductive KeyFault where
  | missing
  | required
  | operator (key : String)
  deriving DecidableEq, Repr

/-- The wording of a key's fault. -/
def KeyFault.message : KeyFault → String
  | .missing => "missing from item"
  | .required => "required to address an item"
  | .operator key => "operator " ++ key ++ " cannot address an item"

/-- Why an item or a filter gives no key. -/
inductive KeyError where
  | invalid (table name : String) (fault : KeyFault)
  | mismatch (name want got : String)
  | inIndex (index : String) (cause : KeyError)
  deriving DecidableEq, Repr

/-- The wording of a key error. -/
def KeyError.message : KeyError → String
  | .invalid table name fault =>
    (if table = "" then "" else "table " ++ Text.quoted table ++ ": ") ++
      "key " ++ Text.quoted name ++ ": " ++ fault.message
  | .mismatch name want got =>
    "key " ++ Text.quoted name ++ ": got type " ++ got ++ " want " ++ want
  | .inIndex index cause => "index " ++ Text.quoted index ++ ": " ++ cause.message

namespace KeyDefinition

/-- Whether a value has the kind of a key. -/
def check (k : KeyDefinition) (value : AttributeValue) : Except KeyError Unit :=
  if value.keyKind? = some k.kind then .ok ()
  else .error (.mismatch k.name k.kind value.tag)

/-- The key attributes of an item, each with the kind of its key. -/
def extract (table : String) (item : Item) : List KeyDefinition → Except KeyError Item
  | [] => .ok []
  | k :: rest => match Keyed.lookup k.name item with
    | .none => .error (.invalid table k.name .missing)
    | some value => do
      k.check value
      let key ← extract table item rest
      return Keyed.insert k.name value key

end KeyDefinition

/-! ## Tables and indexes -/

/-- A secondary index. -/
structure IndexDefinition where
  name : String
  kind : String
  hash : KeyDefinition
  range : KeyDefinition
  deriving DecidableEq, Repr, Inhabited

namespace IndexDefinition

/-- The kind of an index with a hash key of its own. -/
def globalKind : String := "GLOBAL"

/-- The kind of an index that shares the table's hash key. -/
def localKind : String := "LOCAL"

/-- The index that is not there. -/
def none : IndexDefinition := ⟨"", "", .none, .none⟩

/-- The keys of an index, hash key first. -/
def keys (i : IndexDefinition) : List KeyDefinition :=
  if i.range.isDefined then [i.hash, i.range] else [i.hash]

/-- The index key of an item. -/
def extractKey (i : IndexDefinition) (item : Item) : Except KeyError Item :=
  match KeyDefinition.extract "" item i.keys with
  | .ok key => .ok key
  | .error cause => .error (.inIndex i.name cause)

end IndexDefinition

/-- The key layout of a table. -/
structure TableSchema where
  name : String
  hash : KeyDefinition
  range : KeyDefinition
  indexes : List IndexDefinition
  deriving DecidableEq, Repr, Inhabited

/-- How a filter is served. -/
inductive AccessPath where
  | scan
  | primary
  | index (name : String)
  deriving DecidableEq, Repr

/-- The name of a way to serve a filter. -/
def AccessPath.mode : AccessPath → String
  | .scan => "scan"
  | .primary => "query"
  | .index _ => "index-query"

namespace TableSchema

/-- Whether items have a range key. -/
def hasRange (t : TableSchema) : Bool := t.range.isDefined

/-- The primary key, hash key first. -/
def keys (t : TableSchema) : List KeyDefinition :=
  if t.hasRange then [t.hash, t.range] else [t.hash]

/-- The index of a name. -/
def index? (t : TableSchema) (name : String) : Option IndexDefinition :=
  t.indexes.find? fun i => i.name = name

/-- The primary key of an item. -/
def extractKey (t : TableSchema) (item : Item) : Except KeyError Item :=
  KeyDefinition.extract t.name item t.keys

/-- The first index whose hash key a filter names. -/
def findIndex? (t : TableSchema) (filter : Document) : Option IndexDefinition :=
  t.indexes.find? fun i => filter.has i.hash.name

/-- How a filter is served. -/
def accessPath (t : TableSchema) (filter : Document) : AccessPath :=
  if filter.has t.hash.name then .primary
  else match t.findIndex? filter with
    | some i => .index i.name
    | none => .scan

end TableSchema

end DocTable
