import DocTable.Expression.Placeholders
import DocTable.Request.Operation
import DocTable.Request.Params
import DocTable.Table.Schema
import DocTable.Value.Interchange

/-!
# Compiling documents to requests

A request starts from the parameters of its table and the options of the call.  A document becomes a
condition with a term for every field; which parameter takes it depends on the operation.  A delete
and an update also need the key of the item, read from the same document, and an update numbers its
placeholders after those of the condition.  In the end only the parameters that the operation
accepts are kept.
-/

namespace DocTable

set_option autoImplicit false

/-- A compiled request: its parameters by name. -/
abbrev Request := Params

/-- The wording of an error in the JSON of a request. -/
def Request.jsonError (e : InterchangeError) : String :=
  "json: error calling MarshalJSON for type *compiler.Request: " ++ e.message

/-- Why documents have no request. -/
inductive CompileError where
  | noHashKey
  | projection (e : ProjectionError)
  | baseParams (e : Params.Fault)
  | optionParams (e : Params.Fault)
  | unknownOperation (op : Operation)
  | key (e : KeyError)
  | keyValue (name : String) (e : EncodeError)
  | item (e : EncodeError)
  | field (e : FieldError)
  | update (e : UpdateError)
  | emptyUpdate
  deriving Repr

/-- The wording of a compile error. -/
def CompileError.message : CompileError → String
  | .noHashKey => "hash key is mandatory to build queries"
  | .projection e => e.message
  | .baseParams e => "base params: " ++ e.message
  | .optionParams e => "options: " ++ e.message
  | .unknownOperation op => "unknown operation " ++ op.name
  | .key e => e.message
  | .keyValue name e => "key " ++ Text.quoted name ++ ": " ++ e.message
  | .item e => e.message
  | .field e => e.message
  | .update e => e.message
  | .emptyUpdate => "update document has no fields to change"

/-! ## Parts of a request -/

namespace TableSchema

/-- The value of one key field, which must be matched by equality and have the kind of the key. -/
def keyValue (t : TableSchema) (d : Document) (k : KeyDefinition) :
    Except CompileError AttributeValue :=
  match d.get? k.name with
  | none => .error (.key (.invalid t.name k.name .required))
  | some raw =>
    let r := Resolved.ofValue raw
    if r.isEquality then
      match r.operand.encode with
      | .error e => .error (.keyValue k.name e)
      | .ok value => match k.check value with
        | .error e => .error (.key e)
        | .ok () => .ok value
    else .error (.key (.invalid t.name k.name (.operator r.operatorKey)))

/-- The values of key fields. -/
def keyValues (t : TableSchema) (d : Document) :
    List KeyDefinition → Except CompileError Item
  | [] => .ok []
  | k :: rest => do
    let value ← t.keyValue d k
    let key ← t.keyValues d rest
    return Keyed.insert k.name value key

/-- The key of the item that a document addresses. -/
def keyOf (t : TableSchema) (d : Document) : Except CompileError Item := t.keyValues d t.keys

end TableSchema

/-- The condition that a document asks for. -/
def Document.condition (d : Document) : Except CompileError Clause :=
  match (Clause.start .empty).terms d.terms with
  | (c, none) => .ok c
  | (_, some e) => .error (.field e)

/-- The item of a document. -/
def Document.item (d : Document) : Except CompileError Item :=
  match d.encode with
  | .ok item => .ok item
  | .error e => .error (.item e)

namespace Request

/-- Puts an expression and its placeholders into a request; placeholders that are there already stay
unless they are given anew.  An empty expression is left out. -/
def attach (r : Request) (parameter expression : String) (p : Placeholders) : Request :=
  if expression = "" then r
  else
    let r := Keyed.insert parameter (.text expression) r
    let r :=
      if p.names.isEmpty then r
      else Keyed.insert Params.namesKey (.textMap (Keyed.insertAll (Params.names r) p.names)) r
    if p.values.isEmpty then r
    else Keyed.insert Params.valuesKey (.attributes (some (Keyed.insertAll (Params.values r) p.values))) r

/-- Gives a query the index of its access path, unless it names one already. -/
def withIndex (r : Request) (path : AccessPath) : Request :=
  match path with
  | .index name => if Keyed.contains "IndexName" r then r else Keyed.insert "IndexName" (.text name) r
  | _ => r

/-! ## Operations -/

/-- Builds the request that stores an item. -/
def insert (r : Request) (d : Document) : Except CompileError Request := do
  let item ← d.item
  return Keyed.insert "Item" (.attributes (some item)) r

/-- Builds the request that reads the items of a partition or an index. -/
def query (t : TableSchema) (r : Request) (d : Document) : Except CompileError Request := do
  let c ← d.condition
  return (r.attach "KeyConditionExpression" c.condition c.placeholders).withIndex (t.accessPath d)

/-- Builds the request that reads the whole table. -/
def scan (r : Request) (d : Document) : Except CompileError Request := do
  let c ← d.condition
  return r.attach "FilterExpression" c.condition c.placeholders

/-- Builds the request that deletes an item. -/
def delete (t : TableSchema) (r : Request) (d : Document) : Except CompileError Request := do
  let key ← t.keyOf d
  let c ← d.condition
  let r := Keyed.insert "Key" (.attributes (some key)) r
  return Request.attach r "ConditionExpression" c.condition c.placeholders

/-- Reads the directives of an update document. -/
def directives (update : Document) : Except CompileError (List Directive) :=
  match Directive.ofDocument update with
  | .ok found => .ok found
  | .error e => .error (.update e)

/-- Builds the request that changes an item. -/
def update (t : TableSchema) (r : Request) (d update : Document) :
    Except CompileError Request := do
  let key ← t.keyOf d
  let directives ← directives update
  let c ← d.condition
  match Directive.expression c.placeholders directives with
  | (_, .error e) => throw (.field e)
  | (p, .ok expression) =>
    if expression = "" then throw .emptyUpdate
    else
      let r := Keyed.insert "Key" (.attributes (some key)) r
      let r := Request.attach r "ConditionExpression" c.condition p
      return Request.attach r "UpdateExpression" expression p

/-- Builds the request that replaces an item. -/
def replace (r : Request) (d item : Document) : Except CompileError Request := do
  let c ← d.condition
  let item ← item.item
  let r := r.attach "ConditionExpression" c.condition c.placeholders
  return Keyed.insert "Item" (.attributes (some item)) r

/-- Builds the request of an operation.  `extra` is the update document of an update and the new
item of a replacement. -/
def build (op : Operation) (t : TableSchema) (r : Request) (d extra : Document) :
    Except CompileError Request := do
  let r ← match op with
    | .insert => r.insert d
    | .query => r.query t d
    | .scan => r.scan d
    | .delete => r.delete t d
    | .update => r.update t d extra
    | .replace => r.replace d extra
    | .other _ => throw (.unknownOperation op)
  return op.allowed r

/-! ## JSON -/

/-- The JSON of a parameter, in which attribute values have their tagged form. -/
def parameterJson : Value → Except InterchangeError Json
  | .attributes item? => .ok (Item.wire (item?.getD []))
  | .attributeValue v => .ok v.wire
  | other => other.interchange

/-- The JSON of parameters. -/
def membersJson : List (String × Value) → Except InterchangeError (List (String × Json))
  | [] => .ok []
  | (k, v) :: rest => do
    let first ← parameterJson v
    let tail ← membersJson rest
    return (k, first) :: tail

/-- The JSON of a request. -/
def json (r : Request) : Except InterchangeError Json := do
  let members ← membersJson r
  return .object members

end Request

/-! ## Compilers -/

/-- Compiles documents for a table, which must have a hash key. -/
def compileWith (op : Operation) (schema? : Option TableSchema) (base options : Params)
    (d extra : Document) : Except CompileError Request :=
  match schema? with
  | none => .error .noHashKey
  | some t =>
    if t.hash.isDefined then
      match base.normalize with
      | .error e => .error (.baseParams e)
      | .ok base => match options.normalize with
        | .error e => .error (.optionParams e)
        | .ok options => Request.build op t (base.merge options) d extra
    else .error .noHashKey

/-- A table's schema with the parameters that its requests start from. -/
structure Compiler where
  schema : TableSchema
  base : Params
  deriving Repr

namespace Compiler

/-- A compiler for a table; requests name the table unless the parameters say otherwise. -/
def new (schema? : Option TableSchema) (base : Params) : Except CompileError Compiler :=
  match schema? with
  | none => .error .noHashKey
  | some t =>
    if t.hash.isDefined then
      match base.normalize with
      | .error e => .error (.baseParams e)
      | .ok base =>
        if Keyed.contains "TableName" base then .ok ⟨t, base⟩
        else .ok ⟨t, Keyed.insert "TableName" (.text t.name) base⟩
    else .error .noHashKey

/-- Compiles documents with options. -/
def compile (c : Compiler) (op : Operation) (d extra : Document) (options : List RequestOption) :
    Except CompileError Request :=
  match RequestOption.applyAll [] options with
  | .error e => .error (.projection e)
  | .ok options => compileWith op (some c.schema) c.base options d extra

end Compiler

end DocTable
