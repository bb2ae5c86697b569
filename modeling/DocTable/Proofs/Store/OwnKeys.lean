import DocTable.Proofs.Store.Journal
import DocTable.Proofs.Store.WholeReading
import Mathlib

/-!
# Entries under their own keys

Every entry of a store that calls lead to is stored under the key that its item has in a table of the
store, whatever the calls were (`entries_under_own_keys`).  An update may name a path that starts with a
key attribute, and it may start from nothing but a key: neither makes an item leave its key.

The readers of a store rely on that.  A page that ends early takes the key to go on from off its last
item and does not look whether there is one (`lastKey`), and there always is.  A scan finds the items
of its table by the octets that their keys start with, and so does a query for the items of one
partition: these octets are those of the table's own items, each of which is there once, in the order of
the keys (`scan_reads_own_items`).
-/

namespace DocTable.Store

set_option autoImplicit false

/-! ## Where a page ends -/

theorem after?_sublist {t : TableSchema} {key : Item} {items rest : List Item}
    (found : after? t key items = some rest) : rest.Sublist items := by
  induction items with
  | nil => cases found
  | cons item others ih =>
    rw [after?] at found
    split at found
    · cases found
      exact List.sublist_cons_self _ _
    · exact (ih found).cons _

/-- A page that starts after a key is one of the items behind it, read from their start. -/
theorem exists_behind_of_readPage {t : TableSchema} {i? : Option IndexDefinition} {r : TypedRequest}
    {items : List Item} {page : PageOutput} (done : readPage t i? r items = .ok page) :
    ∃ rest, rest.Sublist items ∧ readPage t i? { r with exclusiveStartKey? := none } rest = .ok page := by
  unfold readPage at done
  dsimp only at done
  split at done
  · exact ⟨items, List.Sublist.refl _, done⟩
  · split at done
    · rename_i rest found
      exact ⟨rest, after?_sublist found, done⟩
    · cases done

/-- A page from the start is what reading its items gives. -/
theorem exists_readItems_of_readPage {t : TableSchema} {i? : Option IndexDefinition} {r : TypedRequest}
    {items : List Item} {page : PageOutput} (fromStart : r.exclusiveStartKey? = none)
    (done : readPage t i? r items = .ok page) :
    ∃ filter whole, readItems (pageRule t i? r filter) .empty items = .ok whole ∧
      pageOutput t r whole = page := by
  cases parsed : Condition.parse (r.filter?.getD "") r.context with
  | error cause =>
    simp only [readPage, fromStart, Option.getD_none, parsed, bind, Except.bind, pure, Except.pure] at done
    cases done
  | ok filter =>
    rw [readPage_eq_map fromStart parsed] at done
    exact ⟨filter, Outcome.ok_of_map done⟩

/-- Reading items leaves the key to go on from as it was, or takes it off one of the items. -/
theorem lastKey?_cases_of_readItems {rule : PageRule} {page whole : Page} {items : List Item}
    (done : readItems rule page items = .ok whole) :
    whole.lastKey? = page.lastKey? ∨
      ∃ item ∈ items, whole.lastKey? = some (lastKey rule.table rule.index? item) := by
  induction items generalizing page with
  | nil =>
    cases done
    exact .inl rfl
  | cons item rest ih =>
    have later : ∀ {next : Page}, next.lastKey? = page.lastKey? → readItems rule next rest = .ok whole →
        whole.lastKey? = page.lastKey? ∨
          ∃ other ∈ item :: rest, whole.lastKey? = some (lastKey rule.table rule.index? other) := by
      intro next same doneRest
      rcases ih doneRest with kept | ⟨other, member, taken⟩
      · exact .inl (kept.trans same)
      · exact .inr ⟨other, List.mem_cons_of_mem _ member, taken⟩
    by_cases holds : Condition.allHold rule.filter item = true
    · cases visited : visit rule { page with scanned := page.scanned + 1 } item with
      | error cause =>
        rw [readItems] at done
        simp [holds, visited] at done
      | ok next =>
        rw [readItems_of_visit holds visited] at done
        split at done
        · cases done
          exact .inr ⟨item, List.mem_cons_self, rfl⟩
        · exact later (visit_spec visited).2 done
    · rw [readItems_of_fails holds] at done
      exact later (by rfl) done

/-- The key to go on from after a page is that of an item of which the page was read. -/
theorem lastKey_of_readPage {t : TableSchema} {i? : Option IndexDefinition} {r : TypedRequest}
    {items : List Item} {page : PageOutput} (done : readPage t i? r items = .ok page) {key : Item}
    (last : page.lastKey? = some key) : ∃ item ∈ items, key = lastKey t i? item := by
  obtain ⟨rest, part, doneRest⟩ := exists_behind_of_readPage done
  obtain ⟨filter, whole, read, rfl⟩ := exists_readItems_of_readPage rfl doneRest
  rcases lastKey?_cases_of_readItems read with unfinished | ⟨item, member, taken⟩
  · cases last.symm.trans unfinished
  · exact ⟨item, part.subset member, Option.some.inj (last.symm.trans taken)⟩

/-- **Every entry is stored under the key that its item has.**  After any calls, an entry holds an item
of a registered table that has the table's key attributes, and the entry's place is the item's storage
key.  If no table's name holds a separator, then every item that is collected for a table has the
table's key, so does every item of which a query or a scan reads its page, and the key to go on from
after a page repeats the key attributes of such an item. -/
theorem entries_under_own_keys {schemas : List (Option TableSchema)} {start : Store}
    (opened : Store.new schemas = .ok start) (calls : List ItemCall) :
    let s := start.run calls
    (∀ entry ∈ s.entries, ∃ name t item key, Keyed.lookup name s.tables = some t ∧
      entry.2.item? = some item ∧ t.extractKey item = .ok key ∧ t.storageKey item = .ok entry.1) ∧
    (s.PlainNames → ∀ name t, Keyed.lookup name s.tables = some t →
      ∀ octets, t.keyStart <+: octets → ∀ item ∈ s.collect octets, ∃ key, t.extractKey item = .ok key) ∧
    (s.PlainNames → ∀ reading r page, s.read reading r = .ok page →
      ∃ t i? items, s.table r.tableName? = .ok t ∧ s.Considers reading r t i? items ∧
        (∀ item ∈ items, ∃ key, t.extractKey item = .ok key) ∧
        ∀ last, page.lastKey? = some last → ∃ item ∈ items, last = lastKey t i? item ∧
          ∀ k ∈ t.keys, Keyed.lookup k.name last = Keyed.lookup k.name item) := by
  intro s
  have sound : s.Sound := (Sound.new opened).run calls
  refine ⟨fun entry member => ?_, fun plain name t registered octets ofTable item member => ?_,
    fun plain reading r page done => ?_⟩
  · obtain ⟨name, t, item, slot, registered, read, addressed, place⟩ := sound.placed entry member
    obtain ⟨key, extracted⟩ := TableSchema.extractKey_of_slot? addressed
    exact ⟨name, t, item, key, registered, read, extracted,
      TableSchema.storageKey_eq_ok_iff.mpr ⟨slot, addressed, place⟩⟩
  · obtain ⟨slot, addressed⟩ :=
      (Distinct.collect sound plain registered ofTable).addressed item member
    exact TableSchema.extractKey_of_slot? addressed
  · obtain ⟨t, i?, items, table, considers⟩ := considers_of_read sound plain done
    refine ⟨t, i?, items, table, considers, fun item member => ?_, fun last ends => ?_⟩
    · obtain ⟨slot, addressed⟩ := considers.1.addressed item member
      exact TableSchema.extractKey_of_slot? addressed
    · have read : readPage t i? r items = .ok page := by
        rw [← done]
        exact (considers.2 r.limit? r.exclusiveStartKey?).symm
      obtain ⟨item, member, rfl⟩ := lastKey_of_readPage read ends
      obtain ⟨slot, addressed⟩ := considers.1.addressed item member
      exact ⟨item, member, rfl, lookup_lastKey addressed⟩

namespace Notes

/-- A table of notes by their name. -/
def notes : TableSchema := ⟨"notes", ⟨"name", "S"⟩, .none, []⟩

/-- A store without notes. -/
def empty : Store := ⟨[("notes", notes)], []⟩

/-- Updates the note of a name with one value. -/
def update (name text : String) : ItemCall :=
  .update { tableName? := some "notes", key? := some [("name", .s name)], update? := some text,
            values? := some [(":v", .s "x")] }

/-- Makes a note with a nested text, then writes and removes below the name of the note. -/
def calls : List ItemCall :=
  [update "a" "SET body.first = :v", update "a" "SET name.first = :v", update "a" "REMOVE name.first"]

end Notes

/-- A note that an update has made stays under its name when updates name paths that start with it. -/
theorem entries_under_own_keys_of_notes :
    Store.new [some Notes.notes] = .ok Notes.empty ∧
    (Notes.empty.run Notes.calls).entries.map Prod.fst = [Slot.place ⟨"notes", .text "a", none⟩] ∧
    ∀ entry ∈ (Notes.empty.run Notes.calls).entries, ∃ name t item key,
      Keyed.lookup name (Notes.empty.run Notes.calls).tables = some t ∧
      entry.2.item? = some item ∧ t.extractKey item = .ok key ∧ t.storageKey item = .ok entry.1 := by
  have opened : Store.new [some Notes.notes] = .ok Notes.empty := rfl
  have places : (Notes.empty.run Notes.calls).entries.map Prod.fst =
      [Slot.place ⟨"notes", .text "a", none⟩] := by
    decide +kernel
  exact ⟨opened, places, (entries_under_own_keys opened Notes.calls).1⟩

/-! ## What a scan and a partition have -/

section Scan

variable {s : Store} {t : TableSchema} {name : String}

/-- A request for all items of a table as they are. -/
structure ReadsAll (r : TypedRequest) : Prop where
  noIndex : r.indexName? = none
  unfiltered : r.filter? = none
  unlimited : r.limit? = none
  fromStart : r.exclusiveStartKey?.getD [] = []
  unprojected : r.projection? = none
  withItems : r.select ≠ "COUNT"

/-- A scan for all items answers with what is collected for the table. -/
theorem scan_of_readsAll {r : TypedRequest} (all : ReadsAll r) (table : s.table r.tableName? = .ok t) :
    s.scan r = .ok (wholePage (s.collect t.keyStart) (s.collect t.keyStart).length (r.capacity? t)) := by
  have index : index? t r = .ok none := by
    rw [index?, all.noIndex]
  have parsed : Condition.parse (r.filter?.getD "") r.context = .ok [] := by
    rw [all.unfiltered]
    rfl
  have withItems : (r.select == "COUNT") = false := by
    simpa using all.withItems
  have read := @readItems_of_whole ⟨t, none, [], r.projection?, r.context, r.limit?, r.select == "COUNT"⟩
    all.unlimited all.unprojected withItems ⟨[], 0, 0, none⟩ (s.collect t.keyStart)
  have kept : (s.collect t.keyStart).filter (Condition.allHold []) = s.collect t.keyStart :=
    List.filter_eq_self.mpr fun _ _ => rfl
  rw [kept] at read
  simp only [scan, table, index, readPage, all.fromStart, parsed, pure, Except.pure, bind, Except.bind,
    read, List.nil_append, Nat.zero_add, wholePage]

theorem lookup_of_table_some (found : s.table (some name) = .ok t) :
    Keyed.lookup name s.tables = some t := by
  rw [table] at found
  split at found
  · rename_i registered
    cases found
    exact registered
  · cases found

/-- The item that is got without a projection is what is loaded at the slot of the request's key. -/
theorem slot_of_get {g : TypedRequest} {item : Item} {capacity? : Option Capacity}
    (table : s.table g.tableName? = .ok t) (whole : g.projection? = none)
    (got : s.get g = .ok ⟨some item, capacity?⟩) :
    ∃ slot, t.slot? (g.key?.getD []) = some slot ∧ s.load slot.place = some item := by
  obtain ⟨u, tableU, located⟩ := Outcome.ok_of_bind got
  rw [table] at tableU
  cases tableU
  obtain ⟨⟨key, place⟩, located, _⟩ := Outcome.ok_of_bind located
  obtain ⟨_, slot, addressed, _⟩ := address_eq_ok_iff.mp located
  have reads : s.Reads g t slot := ⟨table, addressed, by rw [whole]; rfl⟩
  have answered := reads.get_eq
  rw [got, Except.ok.injEq, ItemOutput.mk.injEq] at answered
  exact ⟨slot, addressed, answered.1.symm⟩

theorem keyStart_prefix_place {slot : Slot} (fits : slot.Fits t) :
    t.keyStart <+: slot.place := by
  rw [Slot.place, fits.table, TableSchema.keyStart]
  exact ⟨slot.hash.written ++ StorageKey.separator :: slot.rangeWritten, by simp⟩

/-- A collected item is at the place of its key, which starts as asked for. -/
theorem mem_collect_iff (sound : s.Sound) (plain : s.PlainNames)
    (registered : Keyed.lookup name s.tables = some t) {octets : Bytes} (ofTable : t.keyStart <+: octets)
    {item : Item} : item ∈ s.collect octets ↔
      ∃ slot, t.slot? item = some slot ∧ s.load slot.place = some item ∧ octets <+: slot.place := by
  constructor
  · intro member
    obtain ⟨entry, inside, read⟩ := List.mem_filterMap.mp member
    obtain ⟨here, starts⟩ := List.mem_filter.mp inside
    have startsWith := List.isPrefixOf_iff_prefix.mp starts
    obtain ⟨found, slot, readEntry, addressed, place⟩ :=
      sound.slot_of_entry plain registered here (ofTable.trans startsWith)
    rw [readEntry] at read
    cases read
    refine ⟨slot, addressed, ?_, place ▸ startsWith⟩
    rw [load, ← place, Keyed.lookup_of_mem sound.ascending here]
    exact readEntry
  · rintro ⟨slot, _, loaded, starts⟩
    obtain ⟨form, found, read⟩ := Option.bind_eq_some_iff.mp loaded
    refine List.mem_filterMap.mpr ⟨(slot.place, form), List.mem_filter.mpr ?_, read⟩
    exact ⟨Keyed.mem_of_lookup found, List.isPrefixOf_iff_prefix.mpr starts⟩

/-- The storage keys of collected items are in strictly ascending order. -/
theorem storageKeys_collect (sound : s.Sound) (plain : s.PlainNames)
    (registered : Keyed.lookup name s.tables = some t) {octets : Bytes} (ofTable : t.keyStart <+: octets) :
    ∃ places : List Bytes, (s.collect octets).map t.storageKey = places.map .ok ∧
      places.Pairwise (· < ·) := by
  refine ⟨(s.entries.filter fun entry => octets.isPrefixOf entry.1).map Prod.fst, ?_, ?_⟩
  · have ofEntry : ∀ entry ∈ s.entries.filter (fun entry => octets.isPrefixOf entry.1),
        ∃ item, entry.2.item? = some item ∧ t.storageKey item = .ok entry.1 := by
      intro entry member
      obtain ⟨here, starts⟩ := List.mem_filter.mp member
      obtain ⟨item, slot, read, addressed, place⟩ := sound.slot_of_entry plain registered here
        (ofTable.trans (List.isPrefixOf_iff_prefix.mp starts))
      exact ⟨item, read, TableSchema.storageKey_eq_ok_iff.mpr ⟨slot, addressed, place⟩⟩
    rw [collect]
    generalize s.entries.filter (fun entry => octets.isPrefixOf entry.1) = entries at ofEntry
    induction entries with
    | nil => rfl
    | cons entry rest ih =>
      obtain ⟨item, read, stored⟩ := ofEntry entry List.mem_cons_self
      simp only [List.filterMap_cons, read, List.map_cons, stored,
        ih fun other member => ofEntry other (List.mem_cons_of_mem _ member)]
  · rw [List.pairwise_map]
    exact sound.ascending.sublist List.filter_sublist

/-- What is collected for a partition are the items of the table whose hash key has its octets. -/
theorem collect_partition (sound : s.Sound) (plain : s.PlainNames)
    (registered : Keyed.lookup name s.tables = some t) {hash : AttributeValue} {octets : Bytes}
    (partition : t.partitionStart hash = .ok octets) :
    s.collect octets = (s.collect t.keyStart).filter fun item =>
      StorageKey.value t.hash (TableSchema.keyAttribute item t.hash) = StorageKey.value t.hash hash := by
  obtain ⟨part, isPart, rfl⟩ := keyStart_prefix_partitionStart partition
  have ofHash := StorageKey.value_eq_ok_iff.mpr ⟨part, isPart, rfl⟩
  -- an item of the table passes the test exactly if its place starts as those of the partition
  have test : ∀ item slot, t.slot? item = some slot →
      (StorageKey.value t.hash (TableSchema.keyAttribute item t.hash) = StorageKey.value t.hash hash ↔
        t.keyStart ++ (part.written ++ [StorageKey.separator]) <+: slot.place) := by
    intro item slot addressed
    have ofItem := StorageKey.value_eq_ok_iff.mpr ⟨slot.hash, hash_of_slot? addressed, rfl⟩
    have table := (TableSchema.fits_of_slot? addressed).table
    rw [ofItem, ofHash, Except.ok.injEq, Slot.place, table, TableSchema.keyStart]
    constructor
    · intro same
      exact ⟨slot.rangeWritten, by simp [same]⟩
    · rintro ⟨rest, whole⟩
      have tails : part.written ++ StorageKey.separator :: rest =
          slot.hash.written ++ StorageKey.separator :: slot.rangeWritten := by
        simpa using whole
      exact (StorageKey.eq_of_append_separator part.separator_notMem_written
        slot.hash.separator_notMem_written tails).1.symm
  have captures : ∀ item slot, t.slot? item = some slot →
      decide (StorageKey.value t.hash (TableSchema.keyAttribute item t.hash) =
        StorageKey.value t.hash hash) = true →
      t.keyStart ++ (part.written ++ [StorageKey.separator]) <+: slot.place :=
    fun item slot addressed passes => (test item slot addressed).mp (of_decide_eq_true passes)
  have collected := filter_collect_eq sound plain registered (List.prefix_append _ _) captures
  rw [← collected]
  refine (List.filter_eq_self.mpr fun item member => ?_).symm
  obtain ⟨slot, addressed, _, starts⟩ :=
    (mem_collect_iff sound plain registered (List.prefix_append _ _)).mp member
  exact decide_eq_true ((test item slot addressed).mpr starts)

end Scan

/-- **A scan reads the items of its table, and a partition those with its hash key.**  After any calls on
a store whose tables' names hold no separator, a scan of a table for all items succeeds.  The storage
keys of its items are in strictly ascending order, so it answers with no item twice; it answers with the
items that can be got from the table by their key, and with no others; and none of its items is at a
storage key of another table.  What is collected for the partition of a hash key are those of these
items whose hash key has the same octets, in the same order. -/
theorem scan_reads_own_items {schemas : List (Option TableSchema)} {start : Store}
    (opened : Store.new schemas = .ok start)
    (plainNames : ∀ t, some t ∈ schemas → StorageKey.separator ∉ Text.utf8 t.name)
    (calls : List ItemCall) {name : String} {t : TableSchema}
    (table : start.table (some name) = .ok t) {r : TypedRequest} (named : r.tableName? = some name)
    (all : ReadsAll r) :
    let s := start.run calls
    ∃ page, s.scan r = .ok page ∧
      (∃ places : List Bytes, page.items.map t.storageKey = places.map .ok ∧ places.Pairwise (· < ·)) ∧
      (∀ item, item ∈ page.items ↔ ∃ g capacity?, g.tableName? = some name ∧ g.projection? = none ∧
        s.get g = .ok ⟨some item, capacity?⟩) ∧
      (∀ other u key place, other ≠ name → s.table (some other) = .ok u → u.storageKey key = .ok place →
        ∀ item ∈ page.items, t.storageKey item ≠ .ok place) ∧
      ∀ hash octets, t.partitionStart hash = .ok octets →
        s.collect octets = page.items.filter fun item =>
          StorageKey.value t.hash (TableSchema.keyAttribute item t.hash) =
            StorageKey.value t.hash hash := by
  intro s
  have sound : s.Sound := (Sound.new opened).run calls
  have plain : s.PlainNames := plainNames_run opened plainNames calls
  have tableNow : s.table (some name) = .ok t := by
    rw [table_congr (tables_run start calls)]
    exact table
  have registered : Keyed.lookup name s.tables = some t := lookup_of_table_some tableNow
  have scanned := scan_of_readsAll all (named ▸ tableNow)
  refine ⟨_, scanned, storageKeys_collect sound plain registered (List.prefix_refl _), fun item => ?_,
    fun other u key place distinct tableU stored item member same => ?_,
    fun hash octets partition => collect_partition sound plain registered partition⟩
  · rw [wholePage, mem_collect_iff sound plain registered (List.prefix_refl _)]
    constructor
    · rintro ⟨slot, addressed, loaded, _⟩
      have reads : s.Reads { tableName? := some name, key? := some item } t slot :=
        ⟨tableNow, addressed, rfl⟩
      exact ⟨_, _, rfl, rfl, loaded ▸ reads.get_eq⟩
    · rintro ⟨g, capacity?, tableG, whole, got⟩
      obtain ⟨slot, addressed, loaded⟩ := slot_of_get (tableG ▸ tableNow) whole got
      refine ⟨slot, sound.slot_of_load registered (TableSchema.fits_of_slot? addressed) loaded, loaded, ?_⟩
      exact keyStart_prefix_place (TableSchema.fits_of_slot? addressed)
  · obtain ⟨slot, addressed, samePlace⟩ := TableSchema.storageKey_eq_ok_iff.mp stored
    obtain ⟨own, addressedOwn, place⟩ := TableSchema.storageKey_eq_ok_iff.mp same
    have registeredU := lookup_of_table_some tableU
    have tables := (sound.slot_injective registered registeredU (TableSchema.fits_of_slot? addressedOwn)
      (TableSchema.fits_of_slot? addressed) (place.symm.trans samePlace)).1
    subst tables
    exact distinct (by rw [← sound.named registeredU, ← sound.named registered])

namespace Parts

/-- A table of parts by a code. -/
def parts : TableSchema := ⟨"part", ⟨"code", "B"⟩, ⟨"size", "S"⟩, []⟩

/-- A table whose name starts with that of the other. -/
def partners : TableSchema := ⟨"partners", ⟨"name", "S"⟩, .none, []⟩

/-- A store without parts and partners. -/
def empty : Store := ⟨[("part", parts), ("partners", partners)], []⟩

/-- A part. -/
def part (code : Bytes) (size : String) : Item := [("code", .b code), ("size", .s size)]

/-- Puts parts whose codes are empty or hold separators and escapes, and a partner. -/
def calls : List ItemCall :=
  [.put { tableName? := some "part", item? := some (part [0] "") },
    .put { tableName? := some "partners", item? := some [("name", .s "p")] },
    .put { tableName? := some "part", item? := some (part [0, 1] "") },
    .put { tableName? := some "part", item? := some (part [] "\x00") },
    .put { tableName? := some "part", item? := some (part [0] "l") }]

end Parts

/-- The parts in the order of their keys; the code of two of them is the start of another's code. -/
theorem scan_reads_own_items_of_parts :
    Store.new [some Parts.parts, some Parts.partners] = .ok Parts.empty ∧
    ∃ page, (Parts.empty.run Parts.calls).scan { tableName? := some "part" } = .ok page ∧
      page.items = [Parts.part [] "\x00", Parts.part [0] "", Parts.part [0] "l", Parts.part [0, 1] ""] ∧
      ∃ octets, Parts.parts.partitionStart (.b [0]) = .ok octets ∧
        (Parts.empty.run Parts.calls).collect octets = [Parts.part [0] "", Parts.part [0] "l"] := by
  have opened : Store.new [some Parts.parts, some Parts.partners] = .ok Parts.empty := rfl
  have plainNames : ∀ t, some t ∈ [some Parts.parts, some Parts.partners] →
      StorageKey.separator ∉ Text.utf8 t.name := by
    intro t member
    simp only [List.mem_cons, Option.some.injEq, List.not_mem_nil, or_false] at member
    rcases member with rfl | rfl <;> decide
  have all : ReadsAll { tableName? := some "part" } := ⟨rfl, rfl, rfl, rfl, rfl, by decide⟩
  obtain ⟨page, scanned, _, _, _, partitions⟩ :=
    scan_reads_own_items opened plainNames Parts.calls (t := Parts.parts) rfl rfl all
  have items : (Parts.empty.run Parts.calls).scan { tableName? := some "part" } =
      .ok ⟨[Parts.part [] "\x00", Parts.part [0] "", Parts.part [0] "l", Parts.part [0, 1] ""], 4, 4,
        none, none⟩ := by
    cbv
  rw [items] at scanned
  cases scanned
  refine ⟨opened, _, items, rfl, _, rfl, ?_⟩
  rw [partitions (.b [0]) _ rfl]
  cbv

end DocTable.Store
