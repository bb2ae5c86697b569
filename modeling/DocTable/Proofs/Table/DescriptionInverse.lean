import DocTable.Proofs.StableSorting
import DocTable.Proofs.Table.Description

/-!
# Schemas through their descriptions

A description tells names and kinds apart: the kinds of all key attributes stand in one list, in which every name
stands once (`TableSchema.nodup_kinds`), and the keys of the table and of its indexes are names.  A schema in which
a name has one kind throughout (`TableSchema.Uniform`) loses nothing by that: the list gives every key its kind
(`TableSchema.Uniform.lookup_kinds`), so the keys that are read are those that were described.

What a description does not tell is where the local indexes stood among the global ones, and which word was used for
the kind of an index that is not local.  So the schema that is read has the global indexes first, each group in its
order, and every kind that is not local is global (`TableSchema.description_inverse`).
-/

namespace DocTable

set_option autoImplicit false

/-! ## Indexes as they are read -/

namespace IndexDefinition

/-- Whether an index shares the table's hash key. -/
def isLocal (i : IndexDefinition) : Bool := i.kind == localKind

/-- An index that is not local stands before one that is. -/
def precedes (i j : IndexDefinition) : Bool := !i.isLocal && j.isLocal

/-- An index with one of the two kinds that a description tells apart. -/
def described (i : IndexDefinition) : IndexDefinition :=
  { i with kind := if i.isLocal then localKind else globalKind }

theorem described_of_isLocal {i : IndexDefinition} (isLocal : i.isLocal = true) :
    i.described = { i with kind := localKind } := by
  rw [described, if_pos isLocal]

theorem described_of_not_isLocal {i : IndexDefinition} (isGlobal : i.isLocal = false) :
    i.described = { i with kind := globalKind } := by
  rw [described, if_neg (Bool.eq_false_iff.mp isGlobal)]

theorem described_eq_self {i : IndexDefinition} (known : i.kind = globalKind ∨ i.kind = localKind) :
    i.described = i := by
  obtain ⟨name, kind, hash, range⟩ := i
  rcases known with rfl | rfl <;> rfl

theorem tied_precedes (i j : IndexDefinition) : Sorting.tied precedes i j = (i.isLocal == j.isLocal) := by
  rw [Sorting.tied, precedes, precedes]
  cases i.isLocal <;> cases j.isLocal <;> rfl

/-- The indexes that are not local and then the local ones, each group in its order. -/
def globalsFirst (indexes : List IndexDefinition) : List IndexDefinition :=
  indexes.filter (!·.isLocal) ++ indexes.filter (·.isLocal)

/-- Putting the global indexes first is sorting them to the front, and stable. -/
theorem sortsTo_globalsFirst (indexes : List IndexDefinition) :
    Sorting.SortsTo precedes (fun _ => True) indexes (globalsFirst indexes) where
  sorted := by
    have ordered : ∀ {i j : IndexDefinition}, i.isLocal = false ∨ j.isLocal = true → precedes j i = false := by
      intro i j either
      rw [precedes]
      rcases either with first | second
      · rw [first, Bool.and_false]
      · rw [second, Bool.not_true, Bool.false_and]
    rw [Sorting.Sorted, globalsFirst, List.pairwise_append]
    have isGlobal : ∀ i ∈ indexes.filter (!·.isLocal), i.isLocal = false := by simp
    have isLocal : ∀ i ∈ indexes.filter (·.isLocal), i.isLocal = true := by simp
    refine ⟨?_, ?_, fun i first _ _ => ordered (.inl (isGlobal i first))⟩
    · exact List.pairwise_of_forall_mem_list fun i first _ _ => ordered (.inl (isGlobal i first))
    · exact List.pairwise_of_forall_mem_list fun _ _ j second => ordered (.inr (isLocal j second))
  ties := by
    intro i _
    have group : Sorting.tied precedes i = fun j => i.isLocal == j.isLocal := funext (tied_precedes i)
    rw [group]
    cases i.isLocal <;> simp [globalsFirst, List.filter_filter]
  perm := by
    have split := List.filter_append_perm (fun i : IndexDefinition => !i.isLocal) indexes
    simpa only [globalsFirst, Bool.not_not] using split

/-- Indexes with the global ones in front stay where they are. -/
theorem globalsFirst_of_sorted {indexes : List IndexDefinition} (sorted : Sorting.Sorted precedes indexes) :
    globalsFirst indexes = indexes := by
  induction indexes with
  | nil => rfl
  | cons i rest ih =>
    obtain ⟨first, others⟩ := List.pairwise_cons.mp sorted
    have tail := ih others
    rw [globalsFirst] at tail ⊢
    cases here : i.isLocal with
    | false => rw [List.filter_cons_of_pos (by simp [here]), List.filter_cons_of_neg (by simp [here]),
        List.cons_append, tail]
    | true =>
      have allLocal : ∀ j ∈ rest, j.isLocal = true := by
        intro j member
        simpa [precedes, here] using first j member
      have none : rest.filter (!·.isLocal) = [] := by simpa using allLocal
      rw [List.filter_cons_of_neg (by simp [here]), List.filter_cons_of_pos (by simp [here]), none,
        List.nil_append, List.filter_eq_self.mpr allLocal]

end IndexDefinition

namespace TableSchema

/-! ## Uniform schemas -/

/-- A schema in which hash keys are there, a range key that is not there has neither name nor kind, and a name has
one kind throughout. -/
structure Uniform (t : TableSchema) : Prop where
  hash : t.hash.isDefined = true
  indexes : ∀ i ∈ t.indexes, i.hash.isDefined = true
  absent : ∀ k ∈ t.range :: t.indexes.map IndexDefinition.range, k.isDefined = false → k = .none
  kinds : ∀ k ∈ t.allKeys, ∀ l ∈ t.allKeys, k.isDefined = true → k.name = l.name → k.kind = l.kind

variable {t : TableSchema}

/-- The names in the kinds of a description are those of the keys. -/
theorem mem_kinds_iff (t : TableSchema) (name : String) :
    name ∈ Keyed.keys t.description.kinds ↔ ∃ k ∈ t.allKeys, k.isDefined = true ∧ k.name = name := by
  have looked : Keyed.lookup name t.description.kinds = (firstNamed? name t.allKeys).map KeyDefinition.kind := by
    rw [← Keyed.lookup_ofList_of_nodup t.nodup_kinds, lookup_kinds]
  rw [← Keyed.contains_iff_mem_keys, Keyed.contains, looked, Option.isSome_map, firstNamed?, List.find?_isSome]
  simp only [Bool.and_eq_true, decide_eq_true_eq]

namespace Uniform

/-- The kinds of a description give every key its kind. -/
theorem lookup_kinds (uniform : t.Uniform) {k : KeyDefinition} (member : k ∈ t.allKeys)
    (defined : k.isDefined = true) :
    Keyed.lookup k.name (Keyed.ofList t.description.kinds) = some k.kind := by
  have there : (firstNamed? k.name t.allKeys).isSome = true :=
    List.find?_isSome.mpr ⟨k, member, by simp [defined]⟩
  obtain ⟨first, found⟩ := Option.isSome_iff_exists.mp there
  have same : first.isDefined = true ∧ first.name = k.name := by simpa using List.find?_some found
  rw [t.lookup_kinds, found, Option.map_some,
    uniform.kinds first (List.mem_of_find?_eq_some found) k member same.1 same.2]

/-- Every key is read as it is. -/
theorem readIn_eq (uniform : t.Uniform) {k : KeyDefinition} (member : k ∈ t.allKeys)
    (absent : k.isDefined = false → k = .none) : k.readIn (Keyed.ofList t.description.kinds) = k := by
  cases defined : k.isDefined with
  | true => exact KeyDefinition.readIn_of_lookup defined (uniform.lookup_kinds member defined)
  | false =>
    rw [absent defined]
    rfl

theorem readIn_index (uniform : t.Uniform) {i : IndexDefinition} (listed : i ∈ t.indexes) (kind : String) :
    i.readIn (Keyed.ofList t.description.kinds) kind = { i with kind := kind } := by
  have hash := uniform.readIn_eq (mem_allKeys_of_index listed List.mem_cons_self) fun undefined => by
    rw [uniform.indexes i listed] at undefined
    cases undefined
  have range := uniform.readIn_eq (mem_allKeys_of_index listed (List.mem_cons_of_mem _ List.mem_cons_self))
    (uniform.absent i.range (List.mem_cons_of_mem _ (List.mem_map_of_mem listed)))
  rw [IndexDefinition.readIn, hash, range]

/-- The schema that is read from the description of a uniform one. -/
theorem ofDescription_description (uniform : t.Uniform) :
    ofDescription t.description =
      .ok { t with indexes := (IndexDefinition.globalsFirst t.indexes).map IndexDefinition.described } := by
  have range := uniform.readIn_eq (mem_allKeys_of_keys (List.mem_cons_of_mem _ List.mem_cons_self))
    (uniform.absent t.range List.mem_cons_self)
  have globals : (t.indexes.filter fun i => i.kind != IndexDefinition.localKind).map
      (.readIn (Keyed.ofList t.description.kinds) IndexDefinition.globalKind) =
      (t.indexes.filter (!·.isLocal)).map IndexDefinition.described := by
    refine List.map_congr_left fun i member => ?_
    obtain ⟨listed, isGlobal⟩ := List.mem_filter.mp member
    rw [uniform.readIn_index listed, IndexDefinition.described_of_not_isLocal (Bool.not_eq_true' _ ▸ isGlobal)]
  have locals : (t.indexes.filter fun i => i.kind == IndexDefinition.localKind).map
      (.readIn (Keyed.ofList t.description.kinds) IndexDefinition.localKind) =
      (t.indexes.filter (·.isLocal)).map IndexDefinition.described := by
    refine List.map_congr_left fun i member => ?_
    obtain ⟨listed, isLocal⟩ := List.mem_filter.mp member
    rw [uniform.readIn_index listed, IndexDefinition.described_of_isLocal isLocal]
  rw [TableSchema.ofDescription_description uniform.hash uniform.indexes, readIn, hash_readIn uniform.hash, range,
    globals, locals, ← List.map_append]
  rfl

end Uniform

/-- **Reading a description undoes describing.**  A uniform schema is read from its description with its indexes
sorted stably, the local ones to the end, and with every kind that is not local read as global; if the kinds are
those two and the global indexes stand in front, it is read as it is.  The kinds of the description have the name of
every key once, and no other name. -/
theorem description_inverse (uniform : t.Uniform) :
    (∃ reordered, Sorting.SortsTo IndexDefinition.precedes (fun _ => True) t.indexes reordered ∧
      ofDescription t.description = .ok { t with indexes := reordered.map IndexDefinition.described }) ∧
    ((∀ i ∈ t.indexes, i.kind = IndexDefinition.globalKind ∨ i.kind = IndexDefinition.localKind) →
      Sorting.Sorted IndexDefinition.precedes t.indexes → ofDescription t.description = .ok t) ∧
    (Keyed.keys t.description.kinds).Nodup ∧
    ∀ name, name ∈ Keyed.keys t.description.kinds ↔ ∃ k ∈ t.allKeys, k.isDefined = true ∧ k.name = name := by
  have read := uniform.ofDescription_description
  refine ⟨⟨_, IndexDefinition.sortsTo_globalsFirst t.indexes, read⟩, fun known sorted => ?_, t.nodup_kinds,
    t.mem_kinds_iff⟩
  have same : t.indexes.map IndexDefinition.described = t.indexes :=
    (List.map_congr_left fun i listed => IndexDefinition.described_eq_self (known i listed)).trans (List.map_id _)
  rw [read, IndexDefinition.globalsFirst_of_sorted sorted, same]

end TableSchema

namespace Shipments

/-- A table with a local index before two others, one of a kind without a name, and with attributes that serve in
several keys. -/
def schema : TableSchema :=
  ⟨"shipments", ⟨"id", "S"⟩, ⟨"sent", "N"⟩,
    [⟨"by-weight", "LOCAL", ⟨"id", "S"⟩, ⟨"weight", "N"⟩⟩, ⟨"by-port", "", ⟨"port", "S"⟩, ⟨"sent", "N"⟩⟩,
      ⟨"by-day", "GLOBAL", ⟨"sent", "N"⟩, .none⟩]⟩

end Shipments

/-- The shipments are read with the local index at the end. -/
theorem TableSchema.description_inverse_of_shipments :
    Shipments.schema.Uniform ∧
      (∃ reordered, Sorting.SortsTo IndexDefinition.precedes (fun _ => True) Shipments.schema.indexes reordered ∧
        reordered.map IndexDefinition.described =
          [⟨"by-port", "GLOBAL", ⟨"port", "S"⟩, ⟨"sent", "N"⟩⟩, ⟨"by-day", "GLOBAL", ⟨"sent", "N"⟩, .none⟩,
            ⟨"by-weight", "LOCAL", ⟨"id", "S"⟩, ⟨"weight", "N"⟩⟩]) ∧
      (Keyed.keys Shipments.schema.description.kinds).Nodup ∧
      "port" ∈ Keyed.keys Shipments.schema.description.kinds := by
  have uniform : Shipments.schema.Uniform := ⟨by decide, by decide, by decide, by decide⟩
  obtain ⟨⟨reordered, sorts, read⟩, -, distinct, names⟩ := TableSchema.description_inverse uniform
  have described := congrArg TableSchema.indexes (Except.ok.inj read)
  exact ⟨uniform, ⟨reordered, sorts, described.symm⟩, distinct, (names "port").mpr ⟨⟨"port", "S"⟩, by decide⟩⟩

end DocTable
