import DocTable.Command.Task
import DocTable.Proofs.Request.Precedence
import DocTable.Proofs.Table.File
import Mathlib.Data.List.Sort

/-!
# Compiling a task and performing it

A task can be compiled, which shows its request, or performed by a client of its table.  Compiling reads the
table from the schema file.  A client asks a store for the table instead and rebuilds the schema from the
description, and its requests start from the name of the table, to which the parameters of the file are added.

Both ways give the same request or the same error (`Command.Task.request_eq_compile`), because the rebuilt
schema serves as the one of the file (`TableSchema.ServesAs.compileWith_eq`), and because the name of the table
may as well be set before as after the placeholders of the parameters are typed
(`Compiler.new_of_tableName`).
-/

namespace DocTable

set_option autoImplicit false

/-! ## Insertions in any order -/

namespace Keyed

/-- Entries of different keys can be inserted in any order. -/
theorem Ascending.insert_comm {α : Type} {entries : Fields α} (ascending : Ascending entries)
    {first second : String} (distinct : first ≠ second) (value other : α) :
    Keyed.insert first value (Keyed.insert second other entries) =
      Keyed.insert second other (Keyed.insert first value entries) := by
  refine ext ((ascending.insert _ _).insert _ _) ((ascending.insert _ _).insert _ _) fun key => ?_
  rw [lookup_insert, lookup_insert, lookup_insert, lookup_insert]
  split
  · rename_i same
    rw [if_neg fun isSecond => distinct (same.trans isSecond.symm)]
  · rfl

end Keyed

/-! ## The name of the table among the parameters -/

namespace Params

variable {p : Params} {key : String}

theorem normalizeNames_insert (ascending : Keyed.Ascending p) (other : key ≠ namesKey) (value : Value) :
    normalizeNames (Keyed.insert key value p) = p.normalizeNames.map (Keyed.insert key value) := by
  rw [normalizeNames, normalizeNames, Keyed.lookup_insert_of_ne _ _ other]
  split
  iterate 3 rfl
  · rename_i fields _
    cases typedNames fields with
    | error cause => rfl
    | ok names => exact congrArg Except.ok (ascending.insert_comm (Ne.symm other) _ _)
  · rfl

theorem normalizeValues_insert (ascending : Keyed.Ascending p) (other : key ≠ valuesKey) (value : Value) :
    normalizeValues (Keyed.insert key value p) = p.normalizeValues.map (Keyed.insert key value) := by
  rw [normalizeValues, normalizeValues, Keyed.lookup_insert_of_ne _ _ other]
  split
  iterate 3 rfl
  · rename_i fields _
    cases typedValues fields with
    | error cause => rfl
    | ok values => exact congrArg Except.ok (ascending.insert_comm (Ne.symm other) _ _)
  · rfl

/-- A parameter that is no placeholder can be set before or after the placeholders are typed. -/
theorem normalize_insert (ascending : Keyed.Ascending p) (plain : key ∉ Request.placeholderKeys)
    (value : Value) :
    normalize (Keyed.insert key value p) = p.normalize.map (Keyed.insert key value) := by
  simp only [Request.placeholderKeys, List.mem_cons, List.not_mem_nil, or_false, not_or] at plain
  rw [normalize, normalize, normalizeNames_insert ascending plain.1]
  cases done : p.normalizeNames with
  | error cause => rfl
  | ok named =>
    have ascendingNamed := (setsAtMost_of_normalizeNames done).ascending ascending
    exact normalizeValues_insert ascendingNamed plain.2 value

end Params

namespace Compiler

/-- Adding the parameters of a table to its name gives the same compiler as the parameters do. -/
theorem new_of_tableName {t : TableSchema} {params : Params} (ascending : Keyed.Ascending params) :
    new (some t) (Keyed.insertAll [("TableName", .text t.name)] params) = new (some t) params := by
  have single : Keyed.Ascending [("TableName", Value.text t.name)] := List.pairwise_singleton _ _
  have plain : "TableName" ∉ Request.placeholderKeys := by decide
  by_cases given : Keyed.contains "TableName" params = true
  · -- the parameters name the table themselves
    have same : Keyed.insertAll [("TableName", .text t.name)] params = params := by
      refine (single.insertAll params).ext ascending fun key => ?_
      rw [Keyed.lookup_insertAll ascending]
      by_cases isName : "TableName" = key
      · obtain ⟨value, found⟩ := Keyed.contains_iff.mp given
        rw [← isName, found, Option.some_or]
      · rw [Keyed.lookup, if_neg isName, Keyed.lookup, Option.or_none]
    rw [same]
  · have missing := Keyed.contains_eq_false_iff.mp (Bool.not_eq_true _ ▸ given)
    have same : Keyed.insertAll [("TableName", .text t.name)] params =
        Keyed.insert "TableName" (.text t.name) params := by
      refine (single.insertAll params).ext (ascending.insert _ _) fun key => ?_
      rw [Keyed.lookup_insertAll ascending, Keyed.lookup_insert]
      split
      · rename_i isName
        rw [← isName, missing, Option.none_or, Keyed.lookup, if_pos rfl]
      · rename_i other
        rw [Keyed.lookup, if_neg other, Keyed.lookup, Option.or_none]
    rw [same, new, new, Params.normalize_insert ascending plain]
    split
    · cases done : params.normalize with
      | error cause => rfl
      | ok typed =>
        have stillMissing : Keyed.contains "TableName" typed = false :=
          Keyed.contains_eq_false_iff.mpr ((Params.lookup_normalize plain done).trans missing)
        have named : Keyed.contains "TableName" (Keyed.insert "TableName" (.text t.name) typed) = true := by
          rw [Keyed.contains, Keyed.lookup_insert_self]
          rfl
        simp only [Except.map, named, if_true, stillMissing, Bool.false_eq_true, if_false]
    · rfl

end Compiler

/-! ## Schemas that serve alike -/

namespace TableSchema.ServesAs

variable {schema t : TableSchema} (serves : schema.ServesAs t)

include serves

theorem keys_eq : schema.keys = t.keys := by
  rw [keys, keys, hasRange, hasRange, serves.hash, serves.range]

theorem keyOf_eq (d : Document) : schema.keyOf d = t.keyOf d := by
  have value : ∀ k, schema.keyValue d k = t.keyValue d k := fun k => by
    rw [keyValue, keyValue, serves.name]
  have values : ∀ keys, schema.keyValues d keys = t.keyValues d keys := by
    intro keys
    induction keys with
    | nil => rfl
    | cons k rest ih => rw [keyValues, keyValues, value, ih]
  rw [keyOf, keyOf, serves.keys_eq, values]

/-- The same index is found by both. -/
theorem findIndex?_eq (d : Document) :
    (schema.findIndex? d).map IndexDefinition.name = (t.findIndex? d).map IndexDefinition.name := by
  have found : ∀ s : TableSchema, (s.findIndex? d).map IndexDefinition.name =
      ((s.indexes.map accessKey).find? fun key => d.has key.2).map Prod.fst := fun s => by
    rw [findIndex?, List.find?_map, Option.map_map]
    rfl
  rw [found, found, serves.indexes]

theorem accessPath_eq (d : Document) : schema.accessPath d = t.accessPath d := by
  have path : ∀ s : TableSchema, s.accessPath d = if d.has s.hash.name then .primary
      else ((s.findIndex? d).map IndexDefinition.name).elim .scan .index := fun s => by
    rw [accessPath]
    cases s.findIndex? d <;> rfl
  rw [path, path, serves.hash, serves.findIndex?_eq]

theorem build_eq (op : Operation) (r : Request) (d extra : Document) :
    Request.build op schema r d extra = Request.build op t r d extra := by
  cases op with
  | query => simp only [Request.build, Request.query, serves.accessPath_eq]
  | delete => simp only [Request.build, Request.delete, serves.keyOf_eq]
  | update => simp only [Request.build, Request.update, serves.keyOf_eq]
  | _ => rfl

/-- Documents are compiled alike by both. -/
theorem compileWith_eq (op : Operation) (base options : Params) (d extra : Document) :
    compileWith op (some schema) base options d extra = compileWith op (some t) base options d extra := by
  simp only [compileWith, serves.hash, serves.build_eq]

/-- Compilers of both give the same requests and the same errors. -/
theorem compile_eq (base : Params) (op : Operation) (d extra : Document) (options : List RequestOption) :
    (do let c ← Compiler.new (some schema) base; c.compile op d extra options) =
      (do let c ← Compiler.new (some t) base; c.compile op d extra options) := by
  have compile : ∀ base, Compiler.compile ⟨schema, base⟩ op d extra options =
      Compiler.compile ⟨t, base⟩ op d extra options := fun base => by
    simp only [Compiler.compile, serves.compileWith_eq]
  simp only [Compiler.new, serves.hash, serves.name]
  by_cases defined : t.hash.isDefined = true
  · rw [if_pos defined, if_pos defined]
    cases base.normalize with
    | error cause => rfl
    | ok typed =>
      dsimp only
      split
      · exact compile _
      · exact compile _
  · rw [if_neg defined, if_neg defined]

end TableSchema.ServesAs

/-! ## Stores of accepted files -/

namespace Store

/-- Tables with hash keys can be registered. -/
theorem register_map_some (tables : Fields TableSchema) {schemas : List TableSchema}
    (defined : ∀ t ∈ schemas, t.hash.isDefined = true) :
    register tables (schemas.map some) = .ok (Keyed.insertAll tables (schemas.map fun t => (t.name, t))) := by
  induction schemas generalizing tables with
  | nil => rfl
  | cons t rest ih =>
    rw [List.map_cons, register, if_pos (defined t List.mem_cons_self),
      ih _ fun other member => defined other (List.mem_cons_of_mem _ member)]
    rfl

/-- A store serves every table of an accepted file under its name. -/
theorem table_of_openWith {tables? : Option (List TableEntry)} {file : SchemaFile}
    (accepted : SchemaFile.validate tables? = .ok file) (entries : List (Bytes × StoredItem)) :
    ∃ store, openWith entries (file.tables.map fun entry => some entry.schema) = .ok store ∧
      ∀ entry ∈ file.tables, store.table (some entry.name) = .ok entry.schema := by
  have defined : ∀ t ∈ file.tables.map TableEntry.schema, t.hash.isDefined = true := by
    intro t member
    obtain ⟨entry, listed, rfl⟩ := List.mem_map.mp member
    exact (SchemaFile.hasKeys_of_validate accepted entry listed).partitionKey
  have registered := register_map_some [] defined
  rw [List.map_map, List.map_map] at registered
  refine ⟨⟨Keyed.insertAll [] (file.tables.map fun entry => (entry.name, entry.schema)), entries⟩, ?_,
    fun entry listed => ?_⟩
  · exact congrArg (Except.map fun tables => Store.mk tables entries) registered
  · have found : Keyed.lookup entry.name
        (Keyed.insertAll [] (file.tables.map fun entry => (entry.name, entry.schema))) = some entry.schema := by
      refine Keyed.lookup_insertAll_of_mem (List.mem_map.mpr ⟨entry, listed, rfl⟩) fun other member same => ?_
      obtain ⟨twin, listedTwin, rfl⟩ := List.mem_map.mp member
      rw [List.inj_on_of_nodup_map (SchemaFile.nodup_of_validate accepted) listedTwin listed same]
    rw [table, found]

end Store

/-! ## Clients of accepted files -/

/-- A client can be connected to a table that a store serves, and has a schema that serves as the table's. -/
theorem TableClient.connect_of_table {store : Store} {entry : TableEntry}
    (served : store.table (some entry.name) = .ok entry.schema) (keys : entry.HasKeys)
    (distinct : ∀ k, entry.sortKey? = some k → entry.partitionKey.name ≠ k.name) :
    ∃ schema, TableClient.connect store entry.name = .ok ⟨schema, [("TableName", .text entry.name)]⟩ ∧
      schema.ServesAs entry.schema := by
  obtain ⟨schema, read, serves⟩ := TableEntry.servesAs_of_description keys distinct
  have described : store.describe (some entry.name) = .ok entry.schema.description := by
    rw [Store.describe, served]
    rfl
  have compiler : ∃ c, Compiler.new (some schema) [] = .ok c := by
    have defined : schema.hash.isDefined = true := serves.hash ▸ keys.partitionKey
    rw [Compiler.new, if_pos defined]
    exact ⟨_, rfl⟩
  obtain ⟨c, made⟩ := compiler
  refine ⟨schema, ?_, serves⟩
  rw [TableClient.connect, described]
  simp only [Except.mapError, bind, Except.bind, read, made]
  rfl

namespace Command.Task

/-- **Compiling a task and performing it compile the same request.**  Take a schema file that is accepted, a
table of it whose two keys have different names, and a store that serves all tables of the file.  A client can
be connected to the table.  With the parameters of the file added, it compiles any documents, with any options,
to the request or to the error that a compiler of the file's own schema and parameters gives.  So the client that
performs a task on the table has the request that is shown when the task is compiled. -/
theorem request_eq_compile {tables? : Option (List TableEntry)} {file : SchemaFile}
    (accepted : SchemaFile.validate tables? = .ok file) {entry : TableEntry} (listed : entry ∈ file.tables)
    (ascending : Keyed.Ascending entry.params)
    (distinct : ∀ k, entry.sortKey? = some k → entry.partitionKey.name ≠ k.name)
    (entries : List (Bytes × StoredItem)) :
    ∃ store client, Store.openWith entries (file.tables.map fun entry => some entry.schema) = .ok store ∧
      TableClient.connect store entry.name = .ok client ∧
      (∀ op d extra options, (client.addParams entry.params).compile op d extra options =
        (do let c ← Compiler.new (some entry.schema) entry.params; c.compile op d extra options)) ∧
      ∀ task : Task, task.table = entry.name →
        task.client store file = .ok (client.addParams entry.params) ∧
        task.request file = ((client.addParams entry.params).compile task.operation task.document task.update
          []).mapError .compile := by
  obtain ⟨store, opened, serves⟩ := Store.table_of_openWith accepted entries
  obtain ⟨schema, connected, same⟩ := TableClient.connect_of_table (serves entry listed)
    (SchemaFile.hasKeys_of_validate accepted entry listed) distinct
  have compile : ∀ op d extra options,
      TableClient.compile (TableClient.addParams ⟨schema, [("TableName", .text entry.name)]⟩ entry.params)
        op d extra options =
        (do let c ← Compiler.new (some entry.schema) entry.params; c.compile op d extra options) := by
    intro op d extra options
    rw [TableClient.compile, TableClient.addParams, same.compile_eq]
    exact congrArg (· >>= fun c => Compiler.compile c op d extra options)
      (Compiler.new_of_tableName (t := entry.schema) ascending)
  have found := SchemaFile.table?_of_validate accepted listed
  refine ⟨store, _, opened, connected, compile, fun task names => ⟨?_, ?_⟩⟩
  · rw [client, names, connected, found]
    rfl
  · rw [request, names, found, compile]
    dsimp only
    cases Compiler.new (some entry.schema) entry.params with
    | error cause => rfl
    | ok c => rfl

/-- A query by customer uses the index of the customers, with the parameters of the file. -/
theorem request_eq_compile_of_orders :
    let orders : TableEntry := ⟨"orders", ⟨"id", "S"⟩, some ⟨"created", "N"⟩,
      [⟨"byCustomer", ⟨"customer", "S"⟩, none⟩], [⟨"byStatus", ⟨"id", "S"⟩, some ⟨"status", "S"⟩⟩],
      [("ReturnConsumedCapacity", .text "TOTAL")]⟩
    let users : TableEntry := ⟨"users", ⟨"mail", "S"⟩, none, [], [], []⟩
    let file : SchemaFile := ⟨[users, orders]⟩
    let task : Task := ⟨"orders", .query, [("customer", .text "c1")], []⟩
    SchemaFile.validate (some [users, orders]) = .ok file ∧ orders ∈ file.tables ∧
      Keyed.Ascending orders.params ∧
      (∀ k, orders.sortKey? = some k → orders.partitionKey.name ≠ k.name) ∧
      ∃ store client, Store.openWith [] (file.tables.map fun entry => some entry.schema) = .ok store ∧
        TableClient.connect store "orders" = .ok client ∧
        task.client store file = .ok (client.addParams orders.params) ∧
        (client.addParams orders.params).compile .query task.document task.update [] =
          .ok [("ExpressionAttributeNames", .textMap [("#k0", "customer")]),
            ("ExpressionAttributeValues", .attributes (some [(":v0", .s "c1")])),
            ("IndexName", .text "byCustomer"), ("KeyConditionExpression", .text "#k0 = :v0"),
            ("ReturnConsumedCapacity", .text "TOTAL"), ("TableName", .text "orders")] := by
  intro orders users file task
  have accepted : SchemaFile.validate (some [users, orders]) = .ok file := rfl
  have listed : orders ∈ file.tables := List.mem_cons_of_mem _ List.mem_cons_self
  have ascending : Keyed.Ascending orders.params := List.pairwise_singleton _ _
  have distinct : ∀ k, orders.sortKey? = some k → orders.partitionKey.name ≠ k.name := by
    intro k there
    cases there
    decide
  obtain ⟨store, client, opened, connected, compile, tasks⟩ :=
    request_eq_compile accepted listed ascending distinct []
  refine ⟨accepted, listed, ascending, distinct, store, client, opened, connected, (tasks task rfl).1, ?_⟩
  rw [compile]
  rfl

end Command.Task

end DocTable
