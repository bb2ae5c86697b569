import DocTable.Table.Schema
import DocTable.Value.Interchange
import DocTable.Yaml.Content

/-!
# Schema files

A schema file lists tables with their keys, their global and local indexes, and the parameters that
every request for the table starts from.  It is written in YAML.  A file is accepted only if every
name that is needed is there, every key has one of the three kinds, and no two tables, and no two
indexes of a table, have the same name; a local index must have the table's partition key.
-/

namespace DocTable

set_option autoImplicit false

/-- An index as a file has it. -/
structure IndexEntry where
  name : String
  partitionKey : KeyDefinition
  sortKey? : Option KeyDefinition
  deriving DecidableEq, Repr, Inhabited

/-- A table as a file has it. -/
structure TableEntry where
  name : String
  partitionKey : KeyDefinition
  sortKey? : Option KeyDefinition
  globals : List IndexEntry
  locals : List IndexEntry
  params : List (String × Value)
  deriving Repr, Inhabited

/-- The tables of a file. -/
structure SchemaFile where
  tables : List TableEntry
  deriving Repr, Inhabited

/-- A rule that a field of a file breaks. -/
structure Violation where
  field : String
  rule : String
  deriving DecidableEq, Repr

/-- Why a text is no schema file. -/
inductive SchemaError where
  | malformed (fault : Yaml.Fault)
  | violations (found : List Violation)
  | duplicateTable (name : String)
  | duplicateIndex (table name : String)
  | foreignLocalIndex (table name : String)
  deriving DecidableEq, Repr

/-- The wording of a schema error. -/
def SchemaError.message : SchemaError → String
  | .malformed fault => "parse schema: " ++ fault.message
  | .violations found => "invalid schema: " ++
    "; ".intercalate (found.map fun v => v.field ++ " failed " ++ Text.quoted v.rule)
  | .duplicateTable name => "invalid schema: duplicate table " ++ Text.quoted name
  | .duplicateIndex table name =>
    "invalid schema: table " ++ Text.quoted table ++ ": duplicate index " ++ Text.quoted name
  | .foreignLocalIndex table name =>
    "invalid schema: table " ++ Text.quoted table ++ ": local index " ++ Text.quoted name ++
      " must share the table partition key"

/-! ## Reading -/

namespace SchemaFile

open Yaml (Shape)

/-- What a key is loaded from. -/
def keyShape : Shape := .record [("name", .text), ("kind", .text)]

/-- What an index is loaded from. -/
def indexShape : Shape :=
  .record [("name", .text), ("partitionKey", keyShape), ("sortKey", .optional keyShape)]

/-- What a table is loaded from. -/
def tableShape : Shape :=
  .record [("name", .text), ("partitionKey", keyShape), ("sortKey", .optional keyShape),
    ("gsis", .list indexShape), ("lsis", .list indexShape), ("params", .map)]

/-- What a file is loaded from. -/
def fileShape : Shape := .record [("tables", .list tableShape)]

/-- A key from its record. -/
def key (v : Value) : KeyDefinition := ⟨Yaml.textField "name" v, Yaml.textField "kind" v⟩

/-- The sort key of a record, if it has one. -/
def sortKey? (v : Value) : Option KeyDefinition :=
  match Yaml.field? "sortKey" v with
  | none => none
  | some .null => none
  | some k => some (key k)

/-- An index from its record. -/
def indexEntry (v : Value) : IndexEntry :=
  ⟨Yaml.textField "name" v, key (Yaml.recordField "partitionKey" v), sortKey? v⟩

/-- The parameters of a record. -/
def params (v : Value) : List (String × Value) :=
  match Yaml.field? "params" v with
  | some (.map fields) => fields
  | _ => []

/-- A table from its record. -/
def tableEntry (v : Value) : TableEntry where
  name := Yaml.textField "name" v
  partitionKey := key (Yaml.recordField "partitionKey" v)
  sortKey? := sortKey? v
  globals := ((Yaml.listField? "gsis" v).getD []).map indexEntry
  locals := ((Yaml.listField? "lsis" v).getD []).map indexEntry
  params := params v

/-- The tables of a text, none if there is no list of them. -/
def tables? (text : String) : Except Yaml.Fault (Option (List TableEntry)) := do
  let content ← Yaml.loadText Yaml.plainCaller fileShape text
  return (Yaml.listField? "tables" content).map fun items => items.map tableEntry

/-! ## Rules -/

/-- The rule that a required text breaks. -/
def required (field text : String) : List Violation :=
  if text = "" then [⟨field, "required"⟩] else []

/-- The rules that a key breaks. -/
def keyViolations (field : String) (k : KeyDefinition) : List Violation :=
  required (field ++ ".Name") k.name ++
    if k.kind = "" then [⟨field ++ ".Kind", "required"⟩]
    else if k.hasValidKind then [] else [⟨field ++ ".Kind", "oneof"⟩]

/-- The rules that a key breaks, if it is there. -/
def optionalKeyViolations (field : String) : Option KeyDefinition → List Violation
  | none => []
  | some k => keyViolations field k

/-- The rules that numbered entries break. -/
def numbered {α : Type} (rules : String → α → List Violation) (field : String) (position : Nat) :
    List α → List Violation
  | [] => []
  | entry :: rest =>
    rules (field ++ "[" ++ toString position ++ "]") entry ++
      numbered rules field (position + 1) rest

/-- The rules that an index breaks. -/
def indexViolations (field : String) (i : IndexEntry) : List Violation :=
  required (field ++ ".Name") i.name ++ keyViolations (field ++ ".PartitionKey") i.partitionKey ++
    optionalKeyViolations (field ++ ".SortKey") i.sortKey?

/-- The rules that a table breaks. -/
def tableViolations (field : String) (t : TableEntry) : List Violation :=
  required (field ++ ".Name") t.name ++ keyViolations (field ++ ".PartitionKey") t.partitionKey ++
    optionalKeyViolations (field ++ ".SortKey") t.sortKey? ++
    numbered indexViolations (field ++ ".GSIs") 0 t.globals ++
    numbered indexViolations (field ++ ".LSIs") 0 t.locals

/-- The rules that a list of tables breaks. -/
def violations : Option (List TableEntry) → List Violation
  | none => [⟨"Schema.Tables", "required"⟩]
  | some [] => [⟨"Schema.Tables", "min"⟩]
  | some tables => numbered tableViolations "Schema.Tables" 0 tables

/-- The first name that an earlier one repeats. -/
def repeated? (seen : List String) : List String → Option String
  | [] => none
  | name :: rest => if seen.contains name then some name else repeated? (name :: seen) rest

/-- Checks the names of a table's indexes and the partition keys of its local ones. -/
def checkIndexes (t : TableEntry) : Except SchemaError Unit :=
  match repeated? [] ((t.globals ++ t.locals).map IndexEntry.name) with
  | some name => .error (.duplicateIndex t.name name)
  | none => match t.locals.find? fun i => i.partitionKey.name != t.partitionKey.name with
    | some i => .error (.foreignLocalIndex t.name i.name)
    | none => .ok ()

/-- Checks tables in order against the names before them. -/
def checkTables (seen : List String) : List TableEntry → Except SchemaError Unit
  | [] => .ok ()
  | t :: rest =>
    if seen.contains t.name then .error (.duplicateTable t.name)
    else do
      checkIndexes t
      checkTables (t.name :: seen) rest

/-- Checks the tables of a file. -/
def validate (tables? : Option (List TableEntry)) : Except SchemaError SchemaFile :=
  match violations tables? with
  | [] => do
    let tables := tables?.getD []
    checkTables [] tables
    return ⟨tables⟩
  | found => .error (.violations found)

/-- Reads and checks a schema file. -/
def parse (text : String) : Except SchemaError SchemaFile :=
  match tables? text with
  | .error fault => .error (.malformed fault)
  | .ok found => validate found

/-- The table of a name. -/
def table? (f : SchemaFile) (name : String) : Option TableEntry :=
  f.tables.find? fun t => t.name = name

end SchemaFile

/-! ## Schemas -/

/-- The index of an entry. -/
def IndexEntry.toIndex (kind : String) (i : IndexEntry) : IndexDefinition :=
  ⟨i.name, kind, i.partitionKey, i.sortKey?.getD .none⟩

/-- A key that is there. -/
def KeyDefinition.toOption (k : KeyDefinition) : Option KeyDefinition :=
  if k.isDefined then some k else Option.none

/-- The entry of an index. -/
def IndexEntry.ofIndex (i : IndexDefinition) : IndexEntry :=
  ⟨i.name, i.hash, i.range.toOption⟩

namespace TableEntry

/-- The schema of an entry, global indexes first. -/
def schema (t : TableEntry) : TableSchema :=
  ⟨t.name, t.partitionKey, t.sortKey?.getD .none,
    t.globals.map (IndexEntry.toIndex IndexDefinition.globalKind) ++
      t.locals.map (IndexEntry.toIndex IndexDefinition.localKind)⟩

/-- The entry of a schema. -/
def ofSchema (t : TableSchema) : TableEntry where
  name := t.name
  partitionKey := t.hash
  sortKey? := t.range.toOption
  globals := (t.indexes.filter fun i => i.kind != IndexDefinition.localKind).map .ofIndex
  locals := (t.indexes.filter fun i => i.kind == IndexDefinition.localKind).map .ofIndex
  params := []

end TableEntry

/-! ## JSON -/

/-- A key as it is shown. -/
def KeyDefinition.json (k : KeyDefinition) : Json :=
  .object [("name", .string k.name), ("kind", .string k.kind)]

/-- A sort key as it is shown, if there is one. -/
def sortKeyMember : Option KeyDefinition → List (String × Json)
  | none => []
  | some k => [("sortKey", k.json)]

/-- An index as it is shown. -/
def IndexEntry.json (i : IndexEntry) : Json :=
  .object ([("name", .string i.name), ("partitionKey", i.partitionKey.json)] ++
    sortKeyMember i.sortKey?)

/-- Indexes as they are shown, if there are any. -/
def indexesMember (name : String) (indexes : List IndexEntry) : List (String × Json) :=
  if indexes.isEmpty then [] else [(name, .array (indexes.map IndexEntry.json))]

/-- A table as it is shown. -/
def TableEntry.json (t : TableEntry) : Except InterchangeError Json := do
  let params ← Interchange.members t.params
  return .object ([("name", .string t.name), ("partitionKey", t.partitionKey.json)] ++
    sortKeyMember t.sortKey? ++ indexesMember "gsis" t.globals ++ indexesMember "lsis" t.locals ++
    if params.isEmpty then [] else [("params", .object params)])

end DocTable
