import DocTable.Proofs.Attribute.Order
import DocTable.Proofs.StableSorting
import DocTable.Proofs.Store.Paging

/-!
# Readings of all there is

A request that sets no limit, no start, no projection and no direction reads all items that match, in
the order in which they are considered (`query_of_whole`, `scan_of_whole`).

A query of the table considers one partition only.  The octets that the places of the partition start
with capture every item of the table whose hash key is equal to the one asked for, as long as that key
is no number, so what matches in the partition is what matches in the table (`filter_collect_partition`).

A query of an index sorts what it considers by the range key of the index.  Items whose range keys are
ordered come out in that order, and those with equal range keys stay in the order of the table
(`sortBy_spec`).
-/

namespace DocTable.Store

set_option autoImplicit false

/-! ## Pages of all that matches -/

/-- A request for all items as they are, from the first one on. -/
structure Whole (r : TypedRequest) : Prop where
  unlimited : r.limit? = none
  fromStart : r.exclusiveStartKey? = none
  unprojected : r.projection? = none
  forward : r.scanIndexForward? = none
  withItems : r.select = ""

/-- The page that has all matching items. -/
def wholePage (matching : List Item) (scanned : Nat) (capacity? : Option Capacity) : PageOutput :=
  ⟨matching, matching.length, scanned, none, capacity?⟩

theorem readItems_of_whole {rule : PageRule} (unlimited : rule.limit? = none)
    (unprojected : rule.projection? = none) (withItems : rule.countOnly = false) (page : Page)
    (items : List Item) :
    readItems rule page items =
      .ok ⟨page.items ++ items.filter (Condition.allHold rule.filter),
        page.count + (items.filter (Condition.allHold rule.filter)).length,
        page.scanned + items.length, page.lastKey?⟩ := by
  induction items generalizing page with
  | nil => simp [readItems]
  | cons item rest ih =>
    by_cases holds : Condition.allHold rule.filter item = true
    · have visited : visit rule { page with scanned := page.scanned + 1 } item =
          .ok ⟨page.items ++ [item], page.count + 1, page.scanned + 1, page.lastKey?⟩ := by
        simp [visit, withItems, unprojected, Item.project, Projection.texts?]
      rw [readItems_of_visit holds visited, isFull_of_unlimited unlimited, Bool.false_and,
        if_neg (by decide), ih]
      simp only [List.filter_cons, holds, if_true, List.length_cons, List.append_assoc,
        List.singleton_append, Nat.add_assoc, Nat.add_comm 1]
    · rw [readItems_of_fails holds, ih]
      simp only [List.filter_cons, holds, if_false, List.length_cons, Nat.add_assoc,
        Nat.add_comm 1, Bool.false_eq_true]

theorem readPage_of_whole {r : TypedRequest} (whole : Whole r) {filter : List Comparison}
    (parsed : Condition.parse (r.filter?.getD "") r.context = .ok filter) (t : TableSchema)
    (i? : Option IndexDefinition) (items : List Item) :
    readPage t i? r items =
      .ok (wholePage (items.filter (Condition.allHold filter)) items.length (r.capacity? t)) := by
  have withItems : (r.select == "COUNT") = false := by
    rw [whole.withItems]
    decide
  have read := @readItems_of_whole ⟨t, i?, filter, r.projection?, r.context, r.limit?,
    r.select == "COUNT"⟩ whole.unlimited whole.unprojected withItems ⟨[], 0, 0, none⟩ items
  simp only [readPage, whole.fromStart, Option.getD_none, parsed, pure, Except.pure, bind, Except.bind,
    read, List.nil_append, Nat.zero_add, wholePage]

/-- The hash key that a query of the table or of an index tests. -/
def queriedHash (t : TableSchema) (i? : Option IndexDefinition) : KeyDefinition :=
  match i? with
  | some i => i.hash
  | none => t.hash

/-- A query for all items answers with those of its candidates that meet the key condition. -/
theorem query_of_whole {s : Store} {r : TypedRequest} (whole : Whole r) (noFilter : r.filter? = none)
    {text : String} (given : r.keyCondition? = some text) {t : TableSchema}
    (table : s.table r.tableName? = .ok t) {i? : Option IndexDefinition}
    (index : index? t r = .ok i?) {terms : List Comparison}
    (parsed : Condition.parse text r.context = .ok terms) {hash : AttributeValue}
    (hashed : hashValue (queriedHash t i?) terms = .ok hash) {items : List Item}
    (found : s.candidates t i? hash = .ok items) :
    s.query r = .ok (wholePage (items.filter (Condition.allHold terms))
      (items.filter (Condition.allHold terms)).length (r.capacity? t)) := by
  have blank : Condition.parse (r.filter?.getD "") r.context = .ok [] := by
    rw [noFilter]
    rfl
  have page := readPage_of_whole whole blank t i? (items.filter (Condition.allHold terms))
  have all : (items.filter (Condition.allHold terms)).filter (Condition.allHold []) =
      items.filter (Condition.allHold terms) :=
    List.filter_eq_self.mpr fun _ _ => rfl
  rw [all] at page
  cases i? with
  | none =>
    rw [queriedHash] at hashed
    simp only [query, given, table, index, parsed, hashed, found, bind, Except.bind, whole.forward,
      page, reduceCtorEq, if_false]
  | some i =>
    rw [queriedHash] at hashed
    simp only [query, given, table, index, parsed, hashed, found, bind, Except.bind, whole.forward,
      page, reduceCtorEq, if_false]

/-- A scan for all items answers with those of the table that meet the filter. -/
theorem scan_of_whole {s : Store} {r : TypedRequest} (whole : Whole r) (noIndex : r.indexName? = none)
    {t : TableSchema} (table : s.table r.tableName? = .ok t) {filter : List Comparison}
    (parsed : Condition.parse (r.filter?.getD "") r.context = .ok filter) :
    s.scan r = .ok (wholePage ((s.collect t.keyStart).filter (Condition.allHold filter))
      (s.collect t.keyStart).length (r.capacity? t)) := by
  have index : index? t r = .ok none := by
    rw [index?, noIndex]
  simp only [scan, table, index, bind, Except.bind, readPage_of_whole whole parsed]

/-! ## Partitions -/

section Partition

variable {s : Store} {t : TableSchema} {name : String}

/-- Items that are collected for a start and pass a test are those of the table that pass it, if the
start captures the places of all of these. -/
theorem filter_collect_eq (sound : s.Sound) (plain : s.PlainNames)
    (registered : Keyed.lookup name s.tables = some t) {start : Bytes} (ofTable : t.keyStart <+: start)
    {test : Item → Bool} (captures : ∀ item slot, t.slot? item = some slot → test item = true →
      start <+: slot.place) :
    (s.collect start).filter test = (s.collect t.keyStart).filter test := by
  have collected : ∀ start : Bytes, (s.collect start).filter test = s.entries.filterMap fun entry =>
      if start.isPrefixOf entry.1 then entry.2.item?.filter test else none := by
    intro start
    rw [collect, List.filter_filterMap, List.filterMap_filter]
  rw [collected, collected]
  refine List.filterMap_congr fun entry member => ?_
  by_cases inTable : t.keyStart <+: entry.1
  · obtain ⟨item, slot, read, addressed, place⟩ := sound.slot_of_entry plain registered member inTable
    rw [List.isPrefixOf_iff_prefix.mpr inTable, read, place]
    by_cases passes : test item = true
    · rw [List.isPrefixOf_iff_prefix.mpr (captures item slot addressed passes)]
    · simp [Option.filter, passes]
  · have notInStart : ¬start <+: entry.1 := fun inStart => inTable (ofTable.trans inStart)
    rw [Bool.eq_false_iff.mpr (mt List.isPrefixOf_iff_prefix.mp inTable),
      Bool.eq_false_iff.mpr (mt List.isPrefixOf_iff_prefix.mp notInStart)]

theorem keyStart_prefix_partitionStart {hash : AttributeValue} {start : Bytes}
    (partition : t.partitionStart hash = .ok start) :
    ∃ part, t.hash.part? hash = some part ∧
      start = t.keyStart ++ (part.written ++ [StorageKey.separator]) := by
  rw [TableSchema.partitionStart] at partition
  split at partition
  · cases partition
  · rename_i bytes written
    cases partition
    obtain ⟨part, isPart, rfl⟩ := StorageKey.value_eq_ok_iff.mp written
    exact ⟨part, isPart, List.append_assoc _ _ _⟩

/-- The hash part of a slot is that of the item's hash key. -/
theorem hash_of_slot? {item : Item} {slot : Slot} (addressed : t.slot? item = some slot) :
    t.hash.part? (TableSchema.keyAttribute item t.hash) = some slot.hash := by
  rw [TableSchema.slot?] at addressed
  split at addressed
  · cases addressed
  · rename_i hash found
    rw [found]
    split at addressed
    · split at addressed
      · cases addressed
      · cases addressed
        rfl
    · cases addressed
      rfl

/-- What matches in a partition is what matches in the table, if a match has the hash key that is asked
for and this key is no number. -/
theorem filter_collect_partition (sound : s.Sound) (plain : s.PlainNames)
    (registered : Keyed.lookup name s.tables = some t) (notNumber : t.hash.kind ≠ "N")
    {hash : AttributeValue} {start : Bytes} (partition : t.partitionStart hash = .ok start)
    {test : Item → Bool} (keyed : ∀ item, test item = true →
      ∃ got, Keyed.lookup t.hash.name item = some got ∧ got.equal hash = true) :
    (s.collect start).filter test = (s.collect t.keyStart).filter test := by
  obtain ⟨part, isPart, rfl⟩ := keyStart_prefix_partitionStart partition
  refine filter_collect_eq sound plain registered (List.prefix_append _ _) ?_
  intro item slot addressed passes
  obtain ⟨got, there, equal⟩ := keyed item passes
  have isHash := hash_of_slot? addressed
  rw [TableSchema.keyAttribute, there, Option.getD_some] at isHash
  have same : slot.hash = part := (KeyDefinition.part_eq_iff isHash isPart).mpr
    ((KeyDefinition.sharesPart_iff_equal isHash notNumber).mpr equal)
  rw [Slot.place, (TableSchema.fits_of_slot? addressed).table, same, TableSchema.keyStart]
  exact ⟨slot.rangeWritten, by simp⟩

end Partition

/-! ## Sorting by a range key -/

/-- The order of two items by an attribute that both have. -/
def orderBy? (name : String) (a b : Item) : Option Ordering :=
  match Keyed.lookup name a, Keyed.lookup name b with
  | some x, some y => x.compare? y
  | _, _ => none

/-- An item that has an attribute whose values are ordered. -/
def HasOrdered (name kind : String) (item : Item) : Prop :=
  ∃ value : AttributeValue, Keyed.lookup name item = some value ∧ value.IsOrdered kind

section SortBy

variable {name kind : String}

/-- Ordered items are compared by the ranks of their attributes. -/
theorem orderBy?_of_ordered {a b : Item} {x y : AttributeValue}
    (foundA : Keyed.lookup name a = some x) (foundB : Keyed.lookup name b = some y)
    (orderedX : x.IsOrdered kind) (orderedY : y.IsOrdered kind) :
    ∃ order : Ordering, orderBy? name a b = some order ∧ order.Compares x.rank y.rank := by
  rw [orderBy?, foundA, foundB]
  exact AttributeValue.compares_rank orderedX orderedY

theorem precedes_eq (a b : Item) : precedes name a b = (orderBy? name a b == some .lt) := by
  rw [precedes, orderBy?]
  rcases Keyed.lookup name a with _ | x
  · rfl
  · rcases Keyed.lookup name b with _ | y <;> rfl

/-- One ordered item precedes another if its rank is less. -/
theorem precedes_iff {a b : Item} {x y : AttributeValue} (foundA : Keyed.lookup name a = some x)
    (foundB : Keyed.lookup name b = some y) (orderedX : x.IsOrdered kind)
    (orderedY : y.IsOrdered kind) : precedes name a b = true ↔ x.rank < y.rank := by
  obtain ⟨order, compared, ranks⟩ := orderBy?_of_ordered foundA foundB orderedX orderedY
  rw [precedes_eq, compared, ← ranks.eq_lt]
  simp

theorem weakOrder_precedes : Sorting.WeakOrder (precedes name) (HasOrdered name kind) where
  asymm := by
    rintro a b ⟨x, foundA, orderedX⟩ ⟨y, foundB, orderedY⟩ less
    rw [Bool.eq_false_iff, ne_eq, precedes_iff foundB foundA orderedY orderedX]
    exact lt_asymm ((precedes_iff foundA foundB orderedX orderedY).mp less)
  trans := by
    rintro a b c ⟨x, foundA, orderedX⟩ ⟨y, foundB, orderedY⟩ ⟨z, foundC, orderedZ⟩ first second
    rw [Bool.eq_false_iff, ne_eq, precedes_iff foundB foundA orderedY orderedX, not_lt] at first
    rw [Bool.eq_false_iff, ne_eq, precedes_iff foundC foundB orderedZ orderedY, not_lt] at second
    rw [Bool.eq_false_iff, ne_eq, precedes_iff foundC foundA orderedZ orderedX, not_lt]
    exact first.trans second

/-- Ordered items are tied if their attributes are equal in the order. -/
theorem tied_iff {a b : Item} (orderedA : HasOrdered name kind a) (orderedB : HasOrdered name kind b) :
    Sorting.tied (precedes name) a b = (orderBy? name a b == some .eq) := by
  obtain ⟨x, foundA, orderedX⟩ := orderedA
  obtain ⟨y, foundB, orderedY⟩ := orderedB
  obtain ⟨order, compared, ranks⟩ := orderBy?_of_ordered foundA foundB orderedX orderedY
  have less := precedes_iff foundA foundB orderedX orderedY
  have greater := precedes_iff foundB foundA orderedY orderedX
  rw [compared, Bool.eq_iff_iff, Sorting.tied]
  simp only [Bool.and_eq_true, Bool.not_eq_true', Bool.eq_false_iff, ne_eq, less, greater, not_lt,
    beq_iff_eq, Option.some.injEq, ranks.eq_eq]
  exact ⟨fun both => le_antisymm both.2 both.1, fun same => ⟨same.ge, same.le⟩⟩

/-- Sorting puts ordered items in order and leaves equal ones where they were. -/
theorem sortBy_spec {items : List Item} (ordered : ∀ item ∈ items, HasOrdered name kind item) :
    (sortBy name items).Perm items ∧
    ((sortBy name items).Pairwise fun a b => ∃ order, orderBy? name a b = some order ∧ order ≠ .gt) ∧
    ∀ item ∈ items, (sortBy name items).filter (fun other => orderBy? name item other == some .eq) =
      items.filter fun other => orderBy? name item other == some .eq := by
  have sorts := Sorting.sort_sortsTo (@weakOrder_precedes name kind) items ordered
  refine ⟨sorts.perm, ?_, fun item member => ?_⟩
  · refine List.Pairwise.imp_of_mem ?_ sorts.sorted
    intro a b memberA memberB notLess
    obtain ⟨x, foundA, orderedX⟩ := ordered a (sorts.perm.subset memberA)
    obtain ⟨y, foundB, orderedY⟩ := ordered b (sorts.perm.subset memberB)
    obtain ⟨order, compared, ranks⟩ := orderBy?_of_ordered foundA foundB orderedX orderedY
    refine ⟨order, compared, fun greater => ?_⟩
    have less := ranks.eq_gt.mp greater
    rw [(precedes_iff foundB foundA orderedY orderedX).mpr less] at notLess
    cases notLess
  · have ties := sorts.ties item (ordered item member)
    have tests : ∀ other ∈ items, Sorting.tied (precedes name) item other =
        (orderBy? name item other == some .eq) :=
      fun other inside => tied_iff (ordered item member) (ordered other inside)
    rw [List.filter_congr tests, List.filter_congr fun other inside =>
      tests other (sorts.perm.subset inside)] at ties
    exact ties

end SortBy

end DocTable.Store
