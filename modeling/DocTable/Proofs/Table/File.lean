import DocTable.Proofs.Outcome
import DocTable.Proofs.Table.Description
import DocTable.Table.File
import Mathlib.Data.List.Nodup

/-!
# Accepted schema files

A file is checked in two ways.  Rules are checked field by field, and every broken one is reported; then names are
compared, table after table, with the names seen before.  A list of tables passes both exactly if it is well formed
(`SchemaFile.validate_eq_ok_iff`): there is a table, everything has a name, every key has one of the three kinds, no
two tables and no two indexes of a table have one name, and local indexes have the partition key of their table.

So a table of an accepted file is found by its name (`SchemaFile.table?_of_validate`), and all keys of a table and of
its indexes have names (`SchemaFile.hasKeys_of_validate`).  The schema of such a table has its global indexes first and
therefore comes through its description unharmed, unless its two keys have one name
(`TableEntry.servesAs_of_description`); and the table can be read off its schema, apart from its parameters
(`TableEntry.ofSchema_schema`).
-/

namespace DocTable

set_option autoImplicit false

/-! ## Well-formed tables -/

/-- A key with a name and one of the three kinds. -/
structure KeyDefinition.WellFormed (k : KeyDefinition) : Prop where
  name : k.name ≠ ""
  kind : k.kind ∈ KeyDefinition.kinds

/-- An index with a name and well-formed keys. -/
structure IndexEntry.WellFormed (i : IndexEntry) : Prop where
  name : i.name ≠ ""
  partitionKey : i.partitionKey.WellFormed
  sortKey : ∀ k, i.sortKey? = some k → k.WellFormed

/-- A table with a name, well-formed keys and well-formed indexes. -/
structure TableEntry.Complete (t : TableEntry) : Prop where
  name : t.name ≠ ""
  partitionKey : t.partitionKey.WellFormed
  sortKey : ∀ k, t.sortKey? = some k → k.WellFormed
  indexes : ∀ i ∈ t.globals ++ t.locals, i.WellFormed

/-- A complete table whose indexes have different names and whose local indexes have the table's partition key. -/
structure TableEntry.WellFormed (t : TableEntry) : Prop extends t.Complete where
  distinct : ((t.globals ++ t.locals).map IndexEntry.name).Nodup
  locals : ∀ i ∈ t.locals, i.partitionKey.name = t.partitionKey.name

/-- Tables of different names, at least one of them, and all well formed. -/
structure SchemaFile.WellFormed (tables : List TableEntry) : Prop where
  nonempty : tables ≠ []
  each : ∀ t ∈ tables, t.WellFormed
  distinct : (tables.map TableEntry.name).Nodup

/-- A table whose keys, and the keys of whose indexes, have names. -/
structure TableEntry.HasKeys (t : TableEntry) : Prop where
  partitionKey : t.partitionKey.isDefined = true
  sortKey : ∀ k, t.sortKey? = some k → k.isDefined = true
  indexes : ∀ i ∈ t.globals ++ t.locals, i.partitionKey.isDefined = true

theorem KeyDefinition.WellFormed.isDefined {k : KeyDefinition} (wellFormed : k.WellFormed) : k.isDefined = true :=
  bne_iff_ne.mpr wellFormed.name

theorem TableEntry.WellFormed.hasKeys {t : TableEntry} (wellFormed : t.WellFormed) : t.HasKeys where
  partitionKey := wellFormed.partitionKey.isDefined
  sortKey k there := (wellFormed.sortKey k there).isDefined
  indexes i listed := (wellFormed.indexes i listed).partitionKey.isDefined

namespace SchemaFile

/-! ## Rules -/

theorem required_eq_nil_iff {field text : String} : required field text = [] ↔ text ≠ "" := by
  rw [required]
  split <;> simp_all

theorem keyViolations_eq_nil_iff {field : String} {k : KeyDefinition} :
    keyViolations field k = [] ↔ k.WellFormed := by
  have kinds : (if k.kind = "" then [⟨field ++ ".Kind", "required"⟩]
      else if k.hasValidKind then [] else [⟨field ++ ".Kind", "oneof"⟩] : List Violation) = [] ↔
      k.kind ∈ KeyDefinition.kinds := by
    rw [← List.contains_iff_mem, ← KeyDefinition.hasValidKind]
    split
    · rename_i empty
      have invalid : k.hasValidKind = false := by
        rw [KeyDefinition.hasValidKind, empty]
        rfl
      simp [invalid]
    · split <;> simp_all
  rw [keyViolations, List.append_eq_nil_iff, required_eq_nil_iff, kinds]
  exact ⟨fun both => ⟨both.1, both.2⟩, fun wellFormed => ⟨wellFormed.name, wellFormed.kind⟩⟩

theorem optionalKeyViolations_eq_nil_iff {field : String} {k? : Option KeyDefinition} :
    optionalKeyViolations field k? = [] ↔ ∀ k, k? = some k → k.WellFormed := by
  cases k? with
  | none => simp [optionalKeyViolations]
  | some k => simp [optionalKeyViolations, keyViolations_eq_nil_iff]

theorem indexViolations_eq_nil_iff {field : String} {i : IndexEntry} :
    indexViolations field i = [] ↔ i.WellFormed := by
  rw [indexViolations, List.append_eq_nil_iff, List.append_eq_nil_iff, required_eq_nil_iff, keyViolations_eq_nil_iff,
    optionalKeyViolations_eq_nil_iff]
  exact ⟨fun all => ⟨all.1.1, all.1.2, all.2⟩,
    fun wellFormed => ⟨⟨wellFormed.name, wellFormed.partitionKey⟩, wellFormed.sortKey⟩⟩

/-- Numbered entries break no rule if none of them does, wherever it stands. -/
theorem numbered_eq_nil_iff {α : Type} (rules : String → α → List Violation) {P : α → Prop}
    (each : ∀ field entry, rules field entry = [] ↔ P entry) {field : String} {position : Nat} {entries : List α} :
    numbered rules field position entries = [] ↔ ∀ entry ∈ entries, P entry := by
  induction entries generalizing position with
  | nil => simp [numbered]
  | cons entry rest ih => rw [numbered, List.append_eq_nil_iff, each, ih, List.forall_mem_cons]

theorem tableViolations_eq_nil_iff {field : String} {t : TableEntry} :
    tableViolations field t = [] ↔ t.Complete := by
  have indexes : ∀ {field : String} {entries : List IndexEntry},
      numbered indexViolations field 0 entries = [] ↔ ∀ i ∈ entries, i.WellFormed :=
    numbered_eq_nil_iff indexViolations fun _ _ => indexViolations_eq_nil_iff
  simp only [tableViolations, List.append_eq_nil_iff, required_eq_nil_iff, keyViolations_eq_nil_iff,
    optionalKeyViolations_eq_nil_iff, indexes]
  constructor
  · rintro ⟨⟨⟨⟨name, partitionKey⟩, sortKey⟩, globals⟩, locals⟩
    exact ⟨name, partitionKey, sortKey, List.forall_mem_append.mpr ⟨globals, locals⟩⟩
  · intro complete
    obtain ⟨globals, locals⟩ := List.forall_mem_append.mp complete.indexes
    exact ⟨⟨⟨⟨complete.name, complete.partitionKey⟩, complete.sortKey⟩, globals⟩, locals⟩

theorem violations_eq_nil_iff {tables? : Option (List TableEntry)} :
    violations tables? = [] ↔ tables?.getD [] ≠ [] ∧ ∀ t ∈ tables?.getD [], t.Complete := by
  match tables? with
  | none => simp [violations]
  | some [] => simp [violations]
  | some (first :: rest) =>
    have each : numbered tableViolations "Schema.Tables" 0 (first :: rest) = [] ↔
        ∀ t ∈ first :: rest, t.Complete :=
      numbered_eq_nil_iff tableViolations fun _ _ => tableViolations_eq_nil_iff
    rw [violations, each]
    · simp
    · exact List.cons_ne_nil _ _

/-! ## Names -/

theorem repeated?_eq_none_iff {seen names : List String} :
    repeated? seen names = none ↔ names.Nodup ∧ ∀ name ∈ names, name ∉ seen := by
  induction names generalizing seen with
  | nil => simp [repeated?]
  | cons name rest ih =>
    rw [repeated?, List.nodup_cons, List.forall_mem_cons]
    by_cases here : name ∈ seen
    · simp [here]
    · rw [if_neg (by simpa using here), ih]
      constructor
      · rintro ⟨distinct, unseen⟩
        refine ⟨⟨fun later => unseen name later List.mem_cons_self, distinct⟩, here, fun other later => ?_⟩
        exact fun earlier => unseen other later (List.mem_cons_of_mem _ earlier)
      · rintro ⟨⟨fresh, distinct⟩, -, unseen⟩
        refine ⟨distinct, fun other later earlier => ?_⟩
        rcases List.mem_cons.mp earlier with rfl | before
        · exact fresh later
        · exact unseen other later before

theorem checkIndexes_eq_ok_iff {t : TableEntry} :
    checkIndexes t = .ok () ↔ ((t.globals ++ t.locals).map IndexEntry.name).Nodup ∧
      ∀ i ∈ t.locals, i.partitionKey.name = t.partitionKey.name := by
  have distinct := @repeated?_eq_none_iff [] ((t.globals ++ t.locals).map IndexEntry.name)
  simp only [List.not_mem_nil, not_false_eq_true, implies_true, and_true] at distinct
  rw [← distinct, checkIndexes]
  cases repeated? [] ((t.globals ++ t.locals).map IndexEntry.name) with
  | some name => simp
  | none =>
    have shared : (t.locals.find? fun i => i.partitionKey.name != t.partitionKey.name) = none ↔
        ∀ i ∈ t.locals, i.partitionKey.name = t.partitionKey.name := by
      simp [List.find?_eq_none]
    rw [← shared]
    dsimp only
    split <;> simp_all

theorem checkTables_eq_ok_iff {seen : List String} {tables : List TableEntry} :
    checkTables seen tables = .ok () ↔ repeated? seen (tables.map TableEntry.name) = none ∧
      ∀ t ∈ tables, checkIndexes t = .ok () := by
  induction tables generalizing seen with
  | nil => simp [checkTables, repeated?]
  | cons t rest ih =>
    rw [checkTables, List.map_cons, repeated?, List.forall_mem_cons]
    split
    · simp
    · constructor
      · intro checked
        obtain ⟨_, here, others⟩ := Outcome.ok_of_bind checked
        exact ⟨(ih.mp others).1, here, (ih.mp others).2⟩
      · rintro ⟨distinct, here, others⟩
        rw [here]
        exact ih.mpr ⟨distinct, others⟩

/-! ## Accepted files -/

variable {tables? : Option (List TableEntry)} {file : SchemaFile}

/-- Tables pass both checks exactly if they are well formed. -/
theorem wellFormed_iff {tables : List TableEntry} :
    WellFormed tables ↔ violations (some tables) = [] ∧ checkTables [] tables = .ok () := by
  have distinct := @repeated?_eq_none_iff [] (tables.map TableEntry.name)
  simp only [List.not_mem_nil, not_false_eq_true, implies_true, and_true] at distinct
  simp only [violations_eq_nil_iff, Option.getD_some, checkTables_eq_ok_iff, distinct, checkIndexes_eq_ok_iff]
  constructor
  · rintro ⟨nonempty, each, distinct⟩
    exact ⟨⟨nonempty, fun t listed => (each t listed).toComplete⟩, distinct,
      fun t listed => ⟨(each t listed).distinct, (each t listed).locals⟩⟩
  · rintro ⟨⟨nonempty, complete⟩, distinct, indexes⟩
    exact ⟨nonempty, fun t listed => ⟨complete t listed, (indexes t listed).1, (indexes t listed).2⟩, distinct⟩

/-- Exactly the well-formed tables are accepted, as they are. -/
theorem validate_eq_ok_iff :
    validate tables? = .ok file ↔ file.tables = tables?.getD [] ∧ WellFormed file.tables := by
  rw [validate]
  split
  · rename_i kept
    cases tables? with
    | none => cases kept
    | some tables =>
      obtain ⟨listed⟩ := file
      constructor
      · intro accepted
        obtain ⟨_, checked, accepted⟩ := Outcome.ok_of_bind accepted
        cases accepted
        exact ⟨rfl, wellFormed_iff.mpr ⟨kept, checked⟩⟩
      · rintro ⟨rfl, wellFormed⟩
        dsimp only [Option.getD_some]
        rw [(wellFormed_iff.mp wellFormed).2]
        rfl
  · rename_i broken
    refine iff_of_false nofun ?_
    rintro ⟨same, wellFormed⟩
    rw [same] at wellFormed
    exact broken (violations_eq_nil_iff.mpr ⟨wellFormed.nonempty, fun t listed => (wellFormed.each t listed).toComplete⟩)

/-- A text is accepted if it lists well-formed tables. -/
theorem parse_eq_ok_iff {text : String} :
    parse text = .ok file ↔
      ∃ found, SchemaFile.tables? text = .ok found ∧ file.tables = found.getD [] ∧ WellFormed file.tables := by
  rw [parse]
  cases SchemaFile.tables? text with
  | error fault => simp
  | ok found => simp [validate_eq_ok_iff]

/-- All keys in an accepted file have names. -/
theorem hasKeys_of_validate (accepted : validate tables? = .ok file) : ∀ entry ∈ file.tables, entry.HasKeys :=
  fun entry listed => ((validate_eq_ok_iff.mp accepted).2.each entry listed).hasKeys

/-- The tables of an accepted file have different names. -/
theorem nodup_of_validate (accepted : validate tables? = .ok file) :
    (file.tables.map TableEntry.name).Nodup :=
  (validate_eq_ok_iff.mp accepted).2.distinct

/-- A table of an accepted file is found by its name. -/
theorem table?_of_validate (accepted : validate tables? = .ok file) {entry : TableEntry}
    (listed : entry ∈ file.tables) : file.table? entry.name = some entry := by
  have there : (file.table? entry.name).isSome = true :=
    List.find?_isSome.mpr ⟨entry, listed, decide_eq_true rfl⟩
  obtain ⟨found, here⟩ := Option.isSome_iff_exists.mp there
  have named : found.name = entry.name := by simpa using List.find?_some here
  have same : found = entry :=
    List.inj_on_of_nodup_map (nodup_of_validate accepted) (List.mem_of_find?_eq_some here) listed named
  rw [here, same]

end SchemaFile

/-! ## Schemas of accepted tables -/

namespace TableEntry

variable {t : TableEntry}

theorem globals_schema (t : TableEntry) :
    (t.schema.indexes.filter fun i => i.kind != IndexDefinition.localKind) =
      t.globals.map (IndexEntry.toIndex IndexDefinition.globalKind) := by
  have kinds : (IndexDefinition.globalKind == IndexDefinition.localKind) = false := by decide
  simp [schema, List.filter_map, Function.comp_def, IndexEntry.toIndex, kinds, bne]

theorem locals_schema (t : TableEntry) :
    (t.schema.indexes.filter fun i => i.kind == IndexDefinition.localKind) =
      t.locals.map (IndexEntry.toIndex IndexDefinition.localKind) := by
  have kinds : (IndexDefinition.globalKind == IndexDefinition.localKind) = false := by decide
  simp [schema, List.filter_map, Function.comp_def, IndexEntry.toIndex, kinds]

/-- The schema of a table has its global indexes first. -/
theorem indexes_schema (t : TableEntry) :
    (t.schema.indexes.filter fun i => i.kind != IndexDefinition.localKind) ++
      (t.schema.indexes.filter fun i => i.kind == IndexDefinition.localKind) = t.schema.indexes := by
  rw [globals_schema, locals_schema]
  rfl

/-- The schema of a table whose keys have different names comes through its description. -/
theorem servesAs_of_description (keys : t.HasKeys)
    (distinct : ∀ k, t.sortKey? = some k → t.partitionKey.name ≠ k.name) :
    ∃ schema, TableSchema.ofDescription t.schema.description = .ok schema ∧ schema.ServesAs t.schema := by
  refine TableSchema.servesAs_of_description keys.partitionKey ?_ (fun i member => ?_) t.indexes_schema
  · rw [TableSchema.hasRange, schema]
    cases sortKey : t.sortKey? with
    | none => exact .inl rfl
    | some k => exact .inr ⟨keys.sortKey k sortKey, distinct k sortKey⟩
  · rcases List.mem_append.mp member with isGlobal | isLocal
    · obtain ⟨entry, listed, rfl⟩ := List.mem_map.mp isGlobal
      exact keys.indexes entry (List.mem_append_left _ listed)
    · obtain ⟨entry, listed, rfl⟩ := List.mem_map.mp isLocal
      exact keys.indexes entry (List.mem_append_right _ listed)

/-! ## Tables of schemas -/

theorem toOption_getD {k? : Option KeyDefinition} (defined : ∀ k, k? = some k → k.isDefined = true) :
    (k?.getD .none).toOption = k? := by
  cases k? with
  | none => rfl
  | some k => rw [Option.getD_some, KeyDefinition.toOption, if_pos (defined k rfl)]

theorem ofIndex_toIndex {i : IndexEntry} (defined : ∀ k, i.sortKey? = some k → k.isDefined = true) (kind : String) :
    IndexEntry.ofIndex (i.toIndex kind) = i := by
  rw [IndexEntry.ofIndex, IndexEntry.toIndex, toOption_getD defined]

/-- A well-formed table is read off its schema, without its parameters. -/
theorem ofSchema_schema (wellFormed : t.WellFormed) : ofSchema t.schema = { t with params := [] } := by
  have sortKey := toOption_getD fun k there => (wellFormed.sortKey k there).isDefined
  have indexes : ∀ {entries : List IndexEntry}, (∀ i ∈ entries, i.WellFormed) → ∀ kind,
      (entries.map (IndexEntry.toIndex kind)).map .ofIndex = entries := by
    intro entries each kind
    rw [List.map_map]
    refine (List.map_congr_left fun i listed => ?_).trans (List.map_id entries)
    exact ofIndex_toIndex (fun k there => ((each i listed).sortKey k there).isDefined) kind
  obtain ⟨globals, locals⟩ := List.forall_mem_append.mp wellFormed.indexes
  rw [ofSchema, globals_schema, locals_schema, indexes globals, indexes locals]
  dsimp only [schema]
  rw [sortKey]

end TableEntry

end DocTable
