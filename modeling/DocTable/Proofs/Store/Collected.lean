import DocTable.Proofs.Sorting
import DocTable.Proofs.Store.Sound

/-!
# The items that a reading considers

If no table's name holds a separator, the items that are collected for a table belong to it, and no two
of them have the same slot (`Distinct.collect`).  Filtering, sorting and reversing keep that.

A query and a scan first collect items and then read a page of them.  Which items these are does not
depend on where the page starts and how long it may get, and no two have the same slot
(`considers_of_read`).
-/

namespace DocTable.Store

set_option autoImplicit false

/-- No name of a table holds a separator. -/
def PlainNames (s : Store) : Prop :=
  ∀ {name : String} {t : TableSchema}, Keyed.lookup name s.tables = some t →
    StorageKey.separator ∉ Text.utf8 t.name

/-- Items of a table of which no two have the same slot. -/
structure Distinct (t : TableSchema) (items : List Item) : Prop where
  addressed : ∀ item ∈ items, ∃ slot, t.slot? item = some slot
  nodup : (items.map t.slot?).Nodup

namespace Distinct

variable {t : TableSchema} {items others : List Item}

theorem sublist (distinct : Distinct t items) (kept : others.Sublist items) : Distinct t others :=
  ⟨fun item member => distinct.addressed item (kept.subset member),
    List.Nodup.sublist (kept.map t.slot?) distinct.nodup⟩

theorem perm (distinct : Distinct t items) (moved : others.Perm items) : Distinct t others :=
  ⟨fun item member => distinct.addressed item (moved.subset member),
    (moved.map t.slot?).nodup_iff.mpr distinct.nodup⟩

end Distinct

/-! ## Collecting -/

/-- An entry whose place starts as those of a table hold an item of the table. -/
theorem Sound.slot_of_entry {s : Store} (sound : s.Sound) (plain : s.PlainNames) {name : String}
    {t : TableSchema} (registered : Keyed.lookup name s.tables = some t) {entry : Bytes × StoredItem}
    (member : entry ∈ s.entries) (start : t.keyStart <+: entry.1) :
    ∃ item slot, entry.2.item? = some item ∧ t.slot? item = some slot ∧ entry.1 = slot.place := by
  obtain ⟨nameU, u, item, slot, registeredU, read, addressed, place⟩ := sound.placed entry member
  have fits := TableSchema.fits_of_slot? addressed
  rw [place] at start
  have table : slot.table = t.name :=
    Slot.table_eq_of_start (fits.table ▸ plain registeredU) (plain registered) start
  have names : nameU = name := by
    rw [← sound.named registeredU, ← sound.named registered, ← table, fits.table]
  subst names
  rw [registered] at registeredU
  cases registeredU
  exact ⟨item, slot, read, addressed, place⟩

/-- The items whose places start as those of a table are items of the table, each at its own slot. -/
theorem Distinct.collect {s : Store} (sound : s.Sound) (plain : s.PlainNames) {name : String}
    {t : TableSchema} (registered : Keyed.lookup name s.tables = some t) {start : Bytes}
    (ofTable : t.keyStart <+: start) : Distinct t (s.collect start) := by
  have ofEntry : ∀ entry ∈ s.entries.filter (fun entry => start.isPrefixOf entry.1),
      ∃ item slot, entry.2.item? = some item ∧ t.slot? item = some slot ∧ entry.1 = slot.place := by
    intro entry member
    obtain ⟨here, starts⟩ := List.mem_filter.mp member
    exact sound.slot_of_entry plain registered here
      (ofTable.trans (List.isPrefixOf_iff_prefix.mp starts))
  refine ⟨fun item member => ?_, ?_⟩
  · obtain ⟨entry, inside, read⟩ := List.mem_filterMap.mp member
    obtain ⟨found, slot, readEntry, addressed, _⟩ := ofEntry entry inside
    rw [readEntry] at read
    cases read
    exact ⟨slot, addressed⟩
  · rw [List.nodup_iff_pairwise_ne, List.pairwise_map, Store.collect, List.pairwise_filterMap]
    refine List.Pairwise.imp_of_mem ?_ (sound.ascending.sublist List.filter_sublist)
    intro a b memberA memberB less x readX y readY same
    obtain ⟨_, slotA, readA, addressedA, placeA⟩ := ofEntry a memberA
    obtain ⟨_, slotB, readB, addressedB, placeB⟩ := ofEntry b memberB
    rw [readA] at readX
    rw [readB] at readY
    cases readX
    cases readY
    rw [addressedA, addressedB] at same
    rw [placeA, placeB, Option.some.inj same] at less
    exact Std.Irrefl.irrefl _ less

/-- A query or a scan. -/
inductive Reading where
  | query
  | scan

/-- Reads a page by a query or a scan. -/
def read (s : Store) : Reading → TypedRequest → Except StoreError PageOutput
  | .query => s.query
  | .scan => s.scan

/-- Reading by a request considers items of a table, each at its own slot, and pages of any length from
any start on are pages of these items. -/
def Considers (s : Store) (reading : Reading) (r : TypedRequest) (t : TableSchema)
    (i? : Option IndexDefinition) (items : List Item) : Prop :=
  Distinct t items ∧ ∀ limit? start?,
    s.read reading { r with limit? := limit?, exclusiveStartKey? := start? } =
      readPage t i? { r with limit? := limit?, exclusiveStartKey? := start? } items

/-- The candidates of a query are items of its table, each at its own slot. -/
theorem Distinct.candidates {s : Store} (sound : s.Sound) (plain : s.PlainNames) {name : String}
    {t : TableSchema} (registered : Keyed.lookup name s.tables = some t)
    {i? : Option IndexDefinition} {hash : AttributeValue} {items : List Item}
    (found : s.candidates t i? hash = .ok items) : Distinct t items := by
  rw [Store.candidates.eq_def] at found
  cases i? with
  | none =>
    dsimp only at found
    split at found
    · cases found
    · rename_i start partition
      cases found
      refine collect sound plain registered ?_
      rw [TableSchema.partitionStart] at partition
      split at partition
      · cases partition
      · cases partition
        rw [List.append_assoc]
        exact List.prefix_append _ _
  | some i =>
    cases found
    have collected := (collect sound plain registered (List.prefix_refl t.keyStart)).sublist
      (List.filter_sublist (p := hasIndexKey i))
    split
    · exact collected.perm (Sorting.sort_perm _ _)
    · exact collected

theorem considers_of_query {s : Store} (sound : s.Sound) (plain : s.PlainNames) {r : TypedRequest}
    {whole : PageOutput} (done : s.query r = .ok whole) :
    ∃ t i? items, s.table r.tableName? = .ok t ∧ s.Considers .query r t i? items := by
  rw [query] at done
  split at done
  · cases done
  · rename_i text given
    obtain ⟨t, table, done⟩ := Outcome.ok_of_bind done
    obtain ⟨i?, index, done⟩ := Outcome.ok_of_bind done
    split at done
    · cases done
    · rename_i terms parsed
      obtain ⟨hash, hashed, done⟩ := Outcome.ok_of_bind done
      obtain ⟨candidates, found, done⟩ := Outcome.ok_of_bind done
      obtain ⟨name, registered⟩ := lookup_of_table table
      have filtered := (Distinct.candidates sound plain registered found).sublist
        (List.filter_sublist (p := Condition.allHold terms))
      refine ⟨t, i?, if r.scanIndexForward? = some false then
        (candidates.filter (Condition.allHold terms)).reverse
        else candidates.filter (Condition.allHold terms), table, ?_, fun limit? start? => ?_⟩
      · split
        · exact filtered.perm (List.reverse_perm _)
        · exact filtered
      · simp only [index?] at index
        simp only [TypedRequest.context] at parsed
        simp only [read, query, given, table, index?, index, TypedRequest.context, parsed, hashed, found,
          bind, Except.bind]

theorem considers_of_scan {s : Store} (sound : s.Sound) (plain : s.PlainNames) {r : TypedRequest}
    {whole : PageOutput} (done : s.scan r = .ok whole) :
    ∃ t i? items, s.table r.tableName? = .ok t ∧ s.Considers .scan r t i? items := by
  rw [scan] at done
  obtain ⟨t, table, done⟩ := Outcome.ok_of_bind done
  obtain ⟨i?, index, done⟩ := Outcome.ok_of_bind done
  obtain ⟨name, registered⟩ := lookup_of_table table
  have collected := Distinct.collect sound plain registered (List.prefix_refl t.keyStart)
  simp only [index?] at index
  cases i? with
  | none =>
    refine ⟨t, none, s.collect t.keyStart, table, collected, fun limit? start? => ?_⟩
    simp only [read, scan, table, index?, index, bind, Except.bind]
  | some i =>
    refine ⟨t, some i, (s.collect t.keyStart).filter (hasIndexKey i), table,
      collected.sublist List.filter_sublist, fun limit? start? => ?_⟩
    simp only [read, scan, table, index?, index, bind, Except.bind]

/-- A reading that succeeds considers items of the table that its request names. -/
theorem considers_of_read {s : Store} (sound : s.Sound) (plain : s.PlainNames) {reading : Reading}
    {r : TypedRequest} {whole : PageOutput} (done : s.read reading r = .ok whole) :
    ∃ t i? items, s.table r.tableName? = .ok t ∧ s.Considers reading r t i? items := by
  cases reading with
  | query => exact considers_of_query sound plain done
  | scan => exact considers_of_scan sound plain done

end DocTable.Store
