import DocTable.Proofs.Outcome
import DocTable.Proofs.Table.Key
import DocTable.Table.Description

/-!
# Keys through a description

The description of a table gives a name one kind, that of the first key of the table or of its indexes
that has the name (`TableSchema.lookup_kinds`).  The schema that is read from it therefore has the
table's keys, except that a range key with the name of the hash key gets the kind of the hash key
(`TableSchema.sharesKeys_of_description`).

A description lists global indexes before local ones.  If a table does so too, the schema that is read has its
indexes in the same order, each under the hash key it has in the table, and so requests are the same by both
(`TableSchema.servesAs_of_description`).
-/

namespace DocTable

set_option autoImplicit false

namespace KeyDefinition

/-- A key as it is read by its name: with the kind that its name has among some kinds. -/
def readIn (kinds : Fields String) (k : KeyDefinition) : KeyDefinition :=
  if k.isDefined then ⟨k.name, (Keyed.lookup k.name kinds).getD ""⟩ else .none

theorem readIn_of_lookup {kinds : Fields String} {k : KeyDefinition} {kind : String}
    (defined : k.isDefined = true) (found : Keyed.lookup k.name kinds = some kind) :
    k.readIn kinds = ⟨k.name, kind⟩ := by
  rw [readIn, if_pos defined, found, Option.getD_some]

end KeyDefinition

/-- An index as it is read among the indexes of a kind. -/
def IndexDefinition.readIn (kinds : Fields String) (kind : String) (i : IndexDefinition) : IndexDefinition :=
  ⟨i.name, kind, i.hash.readIn kinds, i.range.readIn kinds⟩

/-- A table as it is read from a description: by the names of its keys, and with its global indexes first. -/
def TableSchema.readIn (kinds : Fields String) (t : TableSchema) : TableSchema :=
  ⟨t.name, t.hash.readIn kinds, t.range.readIn kinds,
    (t.indexes.filter fun i => i.kind != IndexDefinition.localKind).map (.readIn kinds IndexDefinition.globalKind) ++
    (t.indexes.filter fun i => i.kind == IndexDefinition.localKind).map (.readIn kinds IndexDefinition.localKind)⟩

namespace TableSchema

/-! ## Kinds by name -/

/-- The first of several keys that has a name. -/
def firstNamed? (name : String) (keys : List KeyDefinition) : Option KeyDefinition :=
  keys.find? fun k => k.isDefined && k.name = name

theorem lookup_addKind (kinds : List (String × String)) (k : KeyDefinition) (name : String) :
    Keyed.lookup name (addKind kinds k) =
      (Keyed.lookup name kinds).or (if k.isDefined && k.name = name then some k.kind else none) := by
  rw [addKind]
  by_cases defined : k.isDefined = true
  · cases found : Keyed.lookup k.name kinds with
    | none =>
      simp only [defined, Keyed.contains, found, Option.isSome_none, Bool.not_false, Bool.and_self,
        if_true, Keyed.lookup_append, Keyed.lookup, Bool.true_and, decide_eq_true_eq]
    | some kind =>
      simp only [defined, Keyed.contains, found, Option.isSome_some, Bool.not_true, Bool.and_false,
        Bool.false_eq_true, if_false, Bool.true_and, decide_eq_true_eq]
      split
      · rename_i same
        rw [← same, found]
        rfl
      · rw [Option.or_none]
  · simp only [defined, Bool.false_and, Bool.false_eq_true, if_false, Option.or_none]

/-- A key is added under a name that is not there yet. -/
theorem nodup_addKind {kinds : List (String × String)} (distinct : (Keyed.keys kinds).Nodup) (k : KeyDefinition) :
    (Keyed.keys (addKind kinds k)).Nodup := by
  rw [addKind]
  split
  · rename_i added
    have fresh : k.name ∉ Keyed.keys kinds := by
      intro there
      rw [← Keyed.contains_iff_mem_keys] at there
      simp [there] at added
    rw [Keyed.keys, List.map_append]
    exact distinct.append (List.nodup_singleton _) (by simpa [List.disjoint_singleton] using fresh)
  · exact distinct

/-- Adding keys gives each name the kind of the first key that has it. -/
theorem lookup_foldl_addKind (keys : List KeyDefinition) (kinds : List (String × String))
    (name : String) :
    Keyed.lookup name (keys.foldl addKind kinds) =
      (Keyed.lookup name kinds).or ((firstNamed? name keys).map KeyDefinition.kind) := by
  induction keys generalizing kinds with
  | nil => simp [firstNamed?]
  | cons k rest ih =>
    rw [List.foldl_cons, ih, lookup_addKind, Option.or_assoc]
    congr 1
    simp only [firstNamed?, List.find?_cons]
    cases here : k.isDefined && decide (k.name = name) <;> simp

theorem nodup_foldl_addKind {kinds : List (String × String)} (distinct : (Keyed.keys kinds).Nodup)
    (keys : List KeyDefinition) : (Keyed.keys (keys.foldl addKind kinds)).Nodup := by
  induction keys generalizing kinds with
  | nil => exact distinct
  | cons k rest ih => exact ih (nodup_addKind distinct k)

/-- Every name stands once in the kinds of a description. -/
theorem nodup_kinds (t : TableSchema) : (Keyed.keys t.description.kinds).Nodup :=
  @nodup_foldl_addKind [] List.nodup_nil _

/-- A description gives a name the kind of the first key that has it. -/
theorem lookup_kinds (t : TableSchema) (name : String) :
    Keyed.lookup name (Keyed.ofList t.description.kinds) =
      (firstNamed? name t.allKeys).map KeyDefinition.kind := by
  rw [Keyed.lookup_ofList_of_nodup t.nodup_kinds, description, lookup_foldl_addKind, Keyed.lookup, Option.none_or]

theorem firstNamed?_hash {t : TableSchema} (defined : t.hash.isDefined = true) :
    firstNamed? t.hash.name t.allKeys = some t.hash := by
  simp [firstNamed?, allKeys, defined]

/-- The name of the range key stands for the range key, or for a hash key of its name. -/
theorem firstNamed?_range {t : TableSchema} (defined : t.hash.isDefined = true)
    (ranged : t.hasRange = true) :
    firstNamed? t.range.name t.allKeys =
      some (if t.hash.name = t.range.name then t.hash else t.range) := by
  rw [hasRange] at ranged
  by_cases same : t.hash.name = t.range.name
  · simp [firstNamed?, allKeys, defined, same]
  · simp [firstNamed?, allKeys, ranged, same]

/-! ## Keys of a described table -/

/-- A schema whose keys are keys of another one and have all their names. -/
structure SharesKeys (schema t : TableSchema) : Prop where
  subset : ∀ k ∈ schema.keys, k ∈ t.keys
  named : ∀ k ∈ t.keys, ∃ other ∈ schema.keys, other.name = k.name

/-- Keys are read from their elements, each with the kind of its name, if there is a hash key and all kinds are
known. -/
theorem toKeysWithHash_ofKeys {kinds : Fields String} {hash range : KeyDefinition} (defined : hash.isDefined = true)
    (known : ∀ k ∈ [hash, range], k.isDefined = true → ∃ kind, Keyed.lookup k.name kinds = some kind) :
    KeyElement.toKeysWithHash kinds (KeyElement.ofKeys hash range) = .ok (hash.readIn kinds, range.readIn kinds) := by
  have roles : ¬KeyElement.rangeRole = KeyElement.hashRole := by decide
  obtain ⟨hashKind, hashFound⟩ := known hash List.mem_cons_self defined
  have named : hash.readIn kinds = ⟨hash.name, hashKind⟩ := KeyDefinition.readIn_of_lookup defined hashFound
  have kept : (KeyDefinition.mk hash.name hashKind).isDefined = true := defined
  rw [named]
  simp only [KeyElement.toKeysWithHash, KeyElement.ofKeys, KeyElement.toKeys, hashFound, if_true]
  by_cases ranged : range.isDefined = true
  · obtain ⟨rangeKind, rangeFound⟩ := known range (List.mem_cons_of_mem _ List.mem_cons_self) ranged
    rw [KeyDefinition.readIn_of_lookup ranged rangeFound]
    simp only [ranged, if_true, KeyElement.toKeys, rangeFound, roles, if_false, bind, Except.bind, kept]
    rfl
  · rw [KeyDefinition.readIn, if_neg ranged]
    simp only [ranged, Bool.false_eq_true, if_false, KeyElement.toKeys, bind, Except.bind, kept, if_true]
    rfl

theorem mem_allKeys_of_keys {t : TableSchema} {k : KeyDefinition} (member : k ∈ [t.hash, t.range]) :
    k ∈ t.allKeys := by
  have both := List.mem_append_left (t.indexes.flatMap fun i => [i.hash, i.range]) member
  exact both

theorem mem_allKeys_of_index {t : TableSchema} {i : IndexDefinition} (listed : i ∈ t.indexes) {k : KeyDefinition}
    (member : k ∈ [i.hash, i.range]) : k ∈ t.allKeys :=
  List.mem_append_right [t.hash, t.range] (List.mem_flatMap.mpr ⟨i, listed, member⟩)

/-- The kind that a description gives to a key of the table or of one of its indexes. -/
theorem exists_kind {t : TableSchema} {k : KeyDefinition} (member : k ∈ t.allKeys)
    (defined : k.isDefined = true) :
    ∃ kind, Keyed.lookup k.name (Keyed.ofList t.description.kinds) = some kind := by
  rw [lookup_kinds]
  have found : (firstNamed? k.name t.allKeys).isSome = true :=
    List.find?_isSome.mpr ⟨k, member, by simp [defined]⟩
  obtain ⟨first, there⟩ := Option.isSome_iff_exists.mp found
  exact ⟨first.kind, by rw [there, Option.map_some]⟩

theorem hash_readIn {t : TableSchema} (defined : t.hash.isDefined = true) :
    t.hash.readIn (Keyed.ofList t.description.kinds) = t.hash := by
  have found := t.lookup_kinds t.hash.name
  rw [firstNamed?_hash defined, Option.map_some] at found
  exact KeyDefinition.readIn_of_lookup defined found

/-- The range key is read as it is, unless the hash key has its name. -/
theorem range_readIn {t : TableSchema} (defined : t.hash.isDefined = true) :
    t.range.readIn (Keyed.ofList t.description.kinds) =
      if t.hasRange then if t.hash.name = t.range.name then t.hash else t.range else KeyDefinition.none := by
  rw [KeyDefinition.readIn, hasRange]
  by_cases ranged : t.range.isDefined = true
  · rw [if_pos ranged, if_pos ranged, lookup_kinds, firstNamed?_range defined ranged, Option.map_some,
      Option.getD_some]
    by_cases same : t.hash.name = t.range.name
    · rw [if_pos same, ← same]
    · rw [if_neg same]
  · rw [if_neg ranged, if_neg ranged]

theorem toKeysWithHash_description {t : TableSchema} (defined : t.hash.isDefined = true) :
    KeyElement.toKeysWithHash (Keyed.ofList t.description.kinds) t.description.keys =
      .ok (t.hash.readIn (Keyed.ofList t.description.kinds), t.range.readIn (Keyed.ofList t.description.kinds)) :=
  toKeysWithHash_ofKeys defined fun _ member => exists_kind (mem_allKeys_of_keys member)

/-- The schema that is read from a table's description has the table's keys. -/
theorem sharesKeys_of_description {t schema : TableSchema} (defined : t.hash.isDefined = true)
    (read : ofDescription t.description = .ok schema) :
    schema.hash = t.hash ∧ SharesKeys schema t := by
  have parts : ofParts t.description = .ok schema := by
    rw [ofDescription] at read
    split at read
    · cases read
      assumption
    · cases read
  obtain ⟨keys, keysRead, parts⟩ := Outcome.ok_of_bind parts
  rw [toKeysWithHash_description defined, hash_readIn defined, range_readIn defined] at keysRead
  cases keysRead
  obtain ⟨globals, _, parts⟩ := Outcome.ok_of_bind parts
  obtain ⟨locals, _, parts⟩ := Outcome.ok_of_bind parts
  cases parts
  refine ⟨rfl, ?_⟩
  by_cases ranged : t.hasRange = true
  · simp only [ranged, if_true]
    by_cases same : t.hash.name = t.range.name
    · -- the name of both keys stands for the hash key
      simp only [same, if_true]
      constructor
      · intro k member
        rcases mem_keys_iff.mp member with hash | ⟨_, range⟩
        · exact mem_keys_iff.mpr (.inl hash)
        · exact mem_keys_iff.mpr (.inl range)
      · intro k member
        refine ⟨t.hash, mem_keys_iff.mpr (.inl rfl), ?_⟩
        rcases mem_keys_iff.mp member with rfl | ⟨_, rfl⟩
        · rfl
        · exact same
    · simp only [same, if_false]
      constructor
      · intro k member
        rcases mem_keys_iff.mp member with hash | ⟨_, range⟩
        · exact mem_keys_iff.mpr (.inl hash)
        · exact mem_keys_iff.mpr (.inr ⟨ranged, range⟩)
      · intro k member
        refine ⟨k, mem_keys_iff.mpr ?_, rfl⟩
        exact mem_keys_iff.mp member
  · simp only [ranged, Bool.false_eq_true, if_false]
    constructor
    · intro k member
      rcases mem_keys_iff.mp member with hash | ⟨undefined, _⟩
      · exact mem_keys_iff.mpr (.inl hash)
      · cases undefined
    · intro k member
      refine ⟨k, mem_keys_iff.mpr (.inl ?_), rfl⟩
      rcases mem_keys_iff.mp member with hash | ⟨defined, _⟩
      · exact hash
      · exact absurd defined ranged

/-! ## Indexes of a described table -/

/-- What decides about the use of an index: its name and the name of its hash key. -/
def accessKey (i : IndexDefinition) : String × String := (i.name, i.hash.name)

/-- A schema by which requests are the same as by another one. -/
structure ServesAs (schema t : TableSchema) : Prop where
  name : schema.name = t.name
  hash : schema.hash = t.hash
  range : schema.range = t.range
  indexes : schema.indexes.map accessKey = t.indexes.map accessKey

/-- Indexes whose keys have kinds are read from their descriptions, in order. -/
theorem toIndexes_map_ofIndex {kinds : Fields String} {indexes : List IndexDefinition}
    (known : ∀ i ∈ indexes, i.hash.isDefined = true ∧
      ∀ k ∈ [i.hash, i.range], k.isDefined = true → ∃ kind, Keyed.lookup k.name kinds = some kind)
    (kind : String) :
    IndexDescription.toIndexes kinds kind (indexes.map .ofIndex) =
      .ok (indexes.map (IndexDefinition.readIn kinds kind)) := by
  induction indexes with
  | nil => rfl
  | cons i rest ih =>
    obtain ⟨defined, found⟩ := known i List.mem_cons_self
    have others := ih fun other member => known other (List.mem_cons_of_mem _ member)
    rw [List.map_cons, IndexDescription.toIndexes, IndexDescription.toIndex]
    simp only [IndexDescription.ofIndex, toKeysWithHash_ofKeys defined found, others]
    rfl

theorem ofParts_of_ok {d : TableDescription} {hash range : KeyDefinition}
    {globals locals : List IndexDefinition}
    (keys : KeyElement.toKeysWithHash (Keyed.ofList d.kinds) d.keys = .ok (hash, range))
    (readGlobals : IndexDescription.toIndexes (Keyed.ofList d.kinds) IndexDefinition.globalKind d.globals =
      .ok globals)
    (readLocals : IndexDescription.toIndexes (Keyed.ofList d.kinds) IndexDefinition.localKind d.locals =
      .ok locals) : ofParts d = .ok ⟨d.name, hash, range, globals ++ locals⟩ := by
  simp only [ofParts, keys, readGlobals, readLocals]
  rfl

/-- A schema whose hash keys are defined is read from its description, with the kinds that the description has. -/
theorem ofDescription_description {t : TableSchema} (defined : t.hash.isDefined = true)
    (indexed : ∀ i ∈ t.indexes, i.hash.isDefined = true) :
    ofDescription t.description = .ok (t.readIn (Keyed.ofList t.description.kinds)) := by
  have indexes : ∀ (kept : IndexDefinition → Bool) (kind : String),
      IndexDescription.toIndexes (Keyed.ofList t.description.kinds) kind ((t.indexes.filter kept).map .ofIndex) =
        .ok ((t.indexes.filter kept).map (.readIn (Keyed.ofList t.description.kinds) kind)) := by
    refine fun kept kind => toIndexes_map_ofIndex (fun i member => ?_) kind
    have listed := (List.mem_filter.mp member).1
    exact ⟨indexed i listed, fun k here => exists_kind (mem_allKeys_of_index listed here)⟩
  have parts : ofParts t.description = .ok (t.readIn (Keyed.ofList t.description.kinds)) :=
    ofParts_of_ok (toKeysWithHash_description defined) (indexes _ _) (indexes _ _)
  rw [ofDescription, parts]

/-- The schema that is read from the description of a table with global indexes first serves as the
table's own. -/
theorem servesAs_of_description {t : TableSchema} (defined : t.hash.isDefined = true)
    (ranged : t.range = .none ∨ t.hasRange = true ∧ t.hash.name ≠ t.range.name)
    (indexed : ∀ i ∈ t.indexes, i.hash.isDefined = true)
    (ordered : (t.indexes.filter fun i => i.kind != IndexDefinition.localKind) ++
      (t.indexes.filter fun i => i.kind == IndexDefinition.localKind) = t.indexes) :
    ∃ schema, ofDescription t.description = .ok schema ∧ schema.ServesAs t := by
  refine ⟨_, ofDescription_description defined indexed, rfl, hash_readIn defined,
    (range_readIn defined).trans ?_, ?_⟩
  · rcases ranged with none | ⟨ranged, distinct⟩
    · rw [hasRange, none]
      rfl
    · rw [if_pos ranged, if_neg distinct]
  · have same : ∀ (kept : IndexDefinition → Bool) (kind : String),
        ((t.indexes.filter kept).map (.readIn (Keyed.ofList t.description.kinds) kind)).map accessKey =
          (t.indexes.filter kept).map accessKey := by
      intro kept kind
      rw [List.map_map]
      refine List.map_congr_left fun i member => ?_
      have defined := indexed i (List.mem_filter.mp member).1
      simp only [Function.comp_apply, accessKey, IndexDefinition.readIn, KeyDefinition.readIn, defined, if_true]
    rw [readIn, List.map_append, same, same, ← List.map_append, ordered]

end TableSchema

end DocTable
