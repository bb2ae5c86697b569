import DocTable.Proofs.Attribute.Equality
import DocTable.Proofs.Expression.NestedPaths
import DocTable.Proofs.Store.KeyOrder
import DocTable.Proofs.Store.OwnKeys

/-!
# A partition is read in the order of its range key

A query of a table reads the entries of one partition as they stand in the store, which is in the order of
their storage keys.  The keys of one partition start alike and go on with the octets of the range value, so
they are in the order of the range values (`collect_inRangeOrder`), and what a page leaves out or projects
away does not disturb that order (`exists_kept_of_readPage`, `Item.keeps_of_project`).  `query_in_range_order`
says so of every query without an index, forward and backward.
-/

namespace DocTable

set_option autoImplicit false

/-! ## Projected items -/

namespace Projection

variable {item out : Item} {name : String}

/-- What an item shows of an attribute is what another one has there. -/
def Keeps (name : String) (item out : Item) : Prop :=
  ∀ {value : AttributeValue}, Keyed.lookup name out = some value → Keyed.lookup name item = some value

/-- The attribute of an item is no map. -/
def IsFlat (name : String) (item : Item) : Prop :=
  ∀ value : AttributeValue, Keyed.lookup name item = some value → value.fields? = none

theorem Keeps.keep (flat : IsFlat name item) (keeps : Keeps name item out) {path : Path} {after : Item}
    (done : keep item out path = .ok after) : Keeps name item after := by
  rw [Projection.keep] at done
  split at done
  · cases done
    exact keeps
  · rename_i value found
    split at done
    · rename_i after written
      cases done
      intro shown there
      cases path with
      | nil => cases found
      | cons step rest =>
        cases rest with
        | nil =>
          cases written
          rw [Keyed.lookup_insert] at there
          split at there
          · rename_i same
            cases there
            rw [← same]
            exact found
          · exact keeps there
        | cons next others =>
          -- a path below the attribute finds nothing, so this one starts elsewhere
          have elsewhere : step ≠ name := by
            rintro rfl
            rw [Path.get?_cons (List.cons_ne_nil _ _)] at found
            obtain ⟨inner, isMap, _⟩ := Option.bind_eq_some_iff.mp found
            obtain ⟨there, foundThere, fields⟩ := Option.bind_eq_some_iff.mp isMap
            exact Option.some_ne_none _ (fields.symm.trans (flat there foundThere))
          obtain ⟨below, inner, _, inserted, _⟩ := Path.set_cons (List.cons_ne_nil _ _) written
          rw [inserted, Keyed.lookup_insert, if_neg elsewhere] at there
          exact keeps there
    · cases done

theorem Keeps.keepAll (flat : IsFlat name item) {c : Context} {texts : List String}
    (keeps : Keeps name item out) {after : Item} (done : keepAll c item out texts = .ok after) : Keeps name item after := by
  induction texts generalizing out with
  | nil =>
    cases done
    exact keeps
  | cons text rest ih =>
    obtain ⟨path, _, done⟩ := Outcome.ok_of_bind done
    obtain ⟨next, kept, done⟩ := Outcome.ok_of_bind done
    exact ih (keeps.keep flat kept) done

end Projection

/-- What is shown of an attribute that is no map is its value. -/
theorem Item.keeps_of_project {item shown : Item} {name : String} {text? : Option String} {c : Context}
    (flat : Projection.IsFlat name item) (projected : item.project text? c = .ok shown) :
    Projection.Keeps name item shown := by
  rw [Item.project] at projected
  split at projected
  · cases projected
    exact id
  · refine Projection.Keeps.keepAll flat ?_ projected
    intro value found
    cases found

/-! ## Pages -/

namespace Store

/-- A page shows some of the items, in their order. -/
theorem exists_kept_of_readItems {rule : PageRule} {page whole : Page} {items : List Item}
    (done : readItems rule page items = .ok whole) :
    ∃ kept shown, kept.Sublist items ∧ whole.items = page.items ++ shown ∧
      List.Forall₂ (fun item view => item.project rule.projection? rule.context = .ok view) kept shown := by
  induction items generalizing page with
  | nil =>
    cases done
    exact ⟨[], [], List.Sublist.refl _, (List.append_nil _).symm, .nil⟩
  | cons item rest ih =>
    rw [readItems] at done
    split at done
    · split at done
      · cases done
      · rename_i visited visit
        -- the item is shown, unless the page only counts
        have step : ∃ kept shown, kept.Sublist [item] ∧ visited.items = page.items ++ shown ∧
            List.Forall₂ (fun item view => item.project rule.projection? rule.context = .ok view) kept
              shown := by
          rw [Store.visit] at visit
          split at visit
          · cases visit
            exact ⟨[], [], List.nil_sublist _, (List.append_nil _).symm, .nil⟩
          · split at visit
            · cases visit
            · rename_i view projected
              cases visit
              exact ⟨[item], [view], List.Sublist.refl _, rfl, .cons projected .nil⟩
        obtain ⟨kept, shown, part, added, views⟩ := step
        split at done
        · cases done
          exact ⟨kept, shown, part.trans (List.sublist_append_left [item] rest), added, views⟩
        · obtain ⟨more, others, partRest, addedRest, viewsRest⟩ := ih done
          refine ⟨kept ++ more, shown ++ others, part.append partRest, ?_, List.rel_append views viewsRest⟩
          rw [addedRest, added, List.append_assoc]
    · obtain ⟨kept, shown, part, added, views⟩ := ih done
      exact ⟨kept, shown, part.cons item, added, views⟩

theorem exists_kept_of_readPage {t : TableSchema} {i? : Option IndexDefinition} {r : TypedRequest}
    {items : List Item} {page : PageOutput} (done : readPage t i? r items = .ok page) :
    ∃ kept, kept.Sublist items ∧
      List.Forall₂ (fun item view => item.project r.projection? r.context = .ok view) kept page.items := by
  obtain ⟨rest, part, doneRest⟩ := exists_behind_of_readPage done
  obtain ⟨filter, whole, read, rfl⟩ := exists_readItems_of_readPage rfl doneRest
  obtain ⟨kept, shown, partRest, added, views⟩ := exists_kept_of_readItems read
  have all : whole.items = shown := added
  rw [← all] at views
  exact ⟨kept, partRest.trans part, views⟩

/-! ## Partitions -/

section Partition

variable {s : Store} {t : TableSchema} {name : String}

/-- The range part of a slot is that of the item's range key. -/
theorem range_of_slot? {item : Item} {slot : Slot} (ranged : t.hasRange = true)
    (addressed : t.slot? item = some slot) :
    ∃ value part, Keyed.lookup t.range.name item = some value ∧ t.range.part? value = some part ∧
      slot.rangeWritten = part.written := by
  rw [TableSchema.slot?] at addressed
  split at addressed
  · cases addressed
  · rw [if_pos ranged] at addressed
    split at addressed
    · cases addressed
    · rename_i part found
      cases addressed
      rw [TableSchema.keyAttribute] at found
      cases there : Keyed.lookup t.range.name item with
      | none =>
        rw [there] at found
        cases (KeyDefinition.part?_eq_some_iff.mp found).2
      | some value =>
        rw [there] at found
        exact ⟨value, part, rfl, found, rfl⟩

/-- The places of a partition differ in their range values only. -/
theorem place_eq_of_partition {hash : AttributeValue} {start : Bytes} {slot : Slot}
    (partition : t.partitionStart hash = .ok start) (fits : slot.Fits t) (starts : start <+: slot.place) :
    slot.place = start ++ slot.rangeWritten := by
  obtain ⟨part, _, rfl⟩ := keyStart_prefix_partitionStart partition
  obtain ⟨rest, whole⟩ := starts
  rw [Slot.place, fits.table, TableSchema.keyStart] at whole ⊢
  have tails : part.written ++ StorageKey.separator :: rest =
      slot.hash.written ++ StorageKey.separator :: slot.rangeWritten := by
    simpa using whole
  rw [← (StorageKey.eq_of_append_separator part.separator_notMem_written slot.hash.separator_notMem_written
    tails).1]
  simp

theorem lt_of_append_lt_append {start a b : Bytes} (less : start ++ a < start ++ b) : a < b := by
  induction start with
  | nil => exact less
  | cons x xs ih =>
    rcases List.cons_lt_cons_iff.mp less with first | ⟨_, rest⟩
    · exact absurd first (UInt8.lt_irrefl x)
    · exact ih rest

/-- Two items are in the order of their range values, as far as these are compared. -/
def InRangeOrder (t : TableSchema) (wrong : Ordering) (a b : Item) : Prop :=
  ∀ (x y : AttributeValue) (order : Ordering), Keyed.lookup t.range.name a = some x →
    Keyed.lookup t.range.name b = some y → x.IsPlainScalar → y.IsPlainScalar →
    x.compare? y = some order → order ≠ wrong

/-- A range value is no map. -/
theorem isFlat_of_slot? {item : Item} {slot : Slot} (ranged : t.hasRange = true)
    (addressed : t.slot? item = some slot) : Projection.IsFlat t.range.name item := by
  intro value found
  obtain ⟨there, part, foundThere, isPart, _⟩ := range_of_slot? ranged addressed
  cases foundThere.symm.trans found
  exact fields?_of_check (KeyDefinition.part?_eq_some_iff.mp isPart).1

/-- Items of which only a part is shown are still in order. -/
theorem InRangeOrder.of_keeps {wrong : Ordering} {a b viewA viewB : Item}
    (keepsA : Projection.Keeps t.range.name a viewA) (keepsB : Projection.Keeps t.range.name b viewB)
    (ordered : InRangeOrder t wrong a b) : InRangeOrder t wrong viewA viewB :=
  fun x y order foundX foundY => ordered x y order (keepsA foundX) (keepsB foundY)

/-- A partition is collected in the order of its range values. -/
theorem collect_inRangeOrder (sound : s.Sound) (plain : s.PlainNames)
    (registered : Keyed.lookup name s.tables = some t) (ranged : t.hasRange = true) {hash : AttributeValue}
    {start : Bytes} (partition : t.partitionStart hash = .ok start) :
    (s.collect start).Pairwise (InRangeOrder t .gt) := by
  have ofTable : t.keyStart <+: start := by
    obtain ⟨part, _, rfl⟩ := keyStart_prefix_partitionStart partition
    exact List.prefix_append _ _
  obtain ⟨places, stored, ascending⟩ := storageKeys_collect sound plain registered ofTable
  have keys : (s.collect start).Pairwise fun a b =>
      ∀ p q, t.storageKey a = .ok p → t.storageKey b = .ok q → p < q := by
    have mapped : ((s.collect start).map t.storageKey).Pairwise fun first second =>
        ∀ p q, first = .ok p → second = .ok q → p < q := by
      rw [stored, List.pairwise_map]
      refine ascending.imp fun less p q first second => ?_
      cases first
      cases second
      exact less
    exact List.pairwise_map.mp mapped
  refine keys.imp_of_mem fun memberA memberB less => ?_
  obtain ⟨slotA, addressedA, _, startsA⟩ := (mem_collect_iff sound plain registered ofTable).mp memberA
  obtain ⟨slotB, addressedB, _, startsB⟩ := (mem_collect_iff sound plain registered ofTable).mp memberB
  have places := less slotA.place slotB.place (TableSchema.storageKey_eq_ok_iff.mpr ⟨slotA, addressedA, rfl⟩)
    (TableSchema.storageKey_eq_ok_iff.mpr ⟨slotB, addressedB, rfl⟩)
  rw [place_eq_of_partition partition (TableSchema.fits_of_slot? addressedA) startsA,
    place_eq_of_partition partition (TableSchema.fits_of_slot? addressedB) startsB] at places
  obtain ⟨valueA, partA, foundA, isPartA, writtenA⟩ := range_of_slot? ranged addressedA
  obtain ⟨valueB, partB, foundB, isPartB, writtenB⟩ := range_of_slot? ranged addressedB
  have ranges := lt_of_append_lt_append places
  rw [writtenA, writtenB] at ranges
  intro x y order foundX foundY plainX plainY compared wrong
  cases foundA.symm.trans foundX
  cases foundB.symm.trans foundY
  rw [wrong] at compared
  exact KeyPart.not_written_lt_of_gt (KeyDefinition.part?_eq_some_iff.mp isPartA).2
    (KeyDefinition.part?_eq_some_iff.mp isPartB).2 plainX plainY compared ranges

/-- Read backward, the items are in the opposite order. -/
theorem InRangeOrder.swap {a b : Item} (ordered : InRangeOrder t .gt a b) : InRangeOrder t .lt b a := by
  intro x y order foundX foundY plainX plainY compared wrong
  rw [wrong] at compared
  exact ordered y x .gt foundY foundX plainY plainX (AttributeValue.compare?_swap compared) rfl

end Partition

/-- The order in which a query has no two range values: none is followed by a smaller one, or, backward, by a
larger one. -/
def wrongOrder (r : TypedRequest) : Ordering := if r.scanIndexForward? = some false then .lt else .gt

theorem pairwise_of_forall₂ {α β : Type} {shows : α → β → Prop} {r : α → α → Prop} {s : β → β → Prop}
    (carried : ∀ {a b a' b'}, shows a a' → shows b b' → r a b → s a' b') {l : List α} {l' : List β}
    (related : List.Forall₂ shows l l') (pairs : l.Pairwise r) : l'.Pairwise s := by
  induction related with
  | nil => exact .nil
  | @cons a a' l l' first rest ih =>
    obtain ⟨head, tail⟩ := List.pairwise_cons.mp pairs
    refine List.pairwise_cons.mpr ⟨fun b' member => ?_, ih tail⟩
    obtain ⟨b, memberB, second⟩ := AttributeValue.exists_mem_of_forall₂ rest.flip member
    exact carried first second (head b memberB)

/-- A page of ordered items is ordered. -/
theorem readPage_inRangeOrder {t : TableSchema} {i? : Option IndexDefinition} {r : TypedRequest}
    {wrong : Ordering} {items : List Item} {page : PageOutput}
    (ordered : items.Pairwise (InRangeOrder t wrong))
    (flat : ∀ item ∈ items, Projection.IsFlat t.range.name item) (done : readPage t i? r items = .ok page) :
    page.items.Pairwise (InRangeOrder t wrong) := by
  obtain ⟨kept, part, views⟩ := exists_kept_of_readPage done
  have pairs : kept.Pairwise fun a b => Projection.IsFlat t.range.name a ∧
      Projection.IsFlat t.range.name b ∧ InRangeOrder t wrong a b :=
    (ordered.sublist part).imp_of_mem fun memberA memberB order =>
      ⟨flat _ (part.subset memberA), flat _ (part.subset memberB), order⟩
  refine pairwise_of_forall₂ ?_ views pairs
  rintro a b viewA viewB shownA shownB ⟨flatA, flatB, order⟩
  exact order.of_keeps (Item.keeps_of_project flatA shownA) (Item.keeps_of_project flatB shownB)

/-- **A query of a table is in the order of the range key.**  After any calls on a store whose tables' names
hold no separator, let a query without an index succeed on a table with a range key.  Of two items that it
answers with, the range value of the earlier one is not the larger one, and not the smaller one if the query
reads backward; numbers among them are plain decimals with at most 55 digits behind the point. -/
theorem query_in_range_order {schemas : List (Option TableSchema)} {start : Store}
    (opened : Store.new schemas = .ok start)
    (plainNames : ∀ t, some t ∈ schemas → StorageKey.separator ∉ Text.utf8 t.name)
    (calls : List ItemCall) {r : TypedRequest} {t : TableSchema}
    (table : (start.run calls).table r.tableName? = .ok t) (ranged : t.hasRange = true)
    (noIndex : r.indexName? = none) {page : PageOutput} (done : (start.run calls).query r = .ok page) :
    page.items.Pairwise (InRangeOrder t (wrongOrder r)) := by
  have sound : (start.run calls).Sound := (Sound.new opened).run calls
  have plain : (start.run calls).PlainNames := plainNames_run opened plainNames calls
  generalize start.run calls = s at *
  obtain ⟨name, registered⟩ := lookup_of_table table
  rw [query] at done
  split at done
  · cases done
  · obtain ⟨u, tableU, done⟩ := Outcome.ok_of_bind done
    cases table.symm.trans tableU
    obtain ⟨i?, index, done⟩ := Outcome.ok_of_bind done
    rw [index?, noIndex] at index
    cases index
    split at done
    · cases done
    · rename_i terms parsed
      obtain ⟨hash, hashed, done⟩ := Outcome.ok_of_bind done
      obtain ⟨candidates, found, done⟩ := Outcome.ok_of_bind done
      rw [Store.candidates] at found
      split at found
      · cases found
      · rename_i octets partition
        cases found
        have collected := collect_inRangeOrder sound plain registered ranged partition
        have forward := collected.sublist (List.filter_sublist (p := Condition.allHold terms))
        have ordered : (if r.scanIndexForward? = some false then
            ((s.collect octets).filter (Condition.allHold terms)).reverse
            else (s.collect octets).filter (Condition.allHold terms)).Pairwise
              (InRangeOrder t (wrongOrder r)) := by
          rw [wrongOrder]
          split
          · exact List.pairwise_reverse.mpr (forward.imp InRangeOrder.swap)
          · exact forward
        refine readPage_inRangeOrder ordered (fun item member => ?_) done
        have collectedItem : item ∈ s.collect octets := by
          split at member
          · exact List.mem_of_mem_filter (List.mem_reverse.mp member)
          · exact List.mem_of_mem_filter member
        obtain ⟨part, _, rfl⟩ := keyStart_prefix_partitionStart partition
        obtain ⟨slot, addressed, _⟩ :=
          (mem_collect_iff sound plain registered (List.prefix_append _ _)).mp collectedItem
        exact isFlat_of_slot? ranged addressed

namespace Readings

/-- A table of readings by sensor and value. -/
def readings : TableSchema := ⟨"readings", ⟨"sensor", "S"⟩, ⟨"value", "N"⟩, []⟩

/-- A store without readings. -/
def empty : Store := ⟨[("readings", readings)], []⟩

/-- A reading. -/
def reading (sensor value : String) : Item := [("sensor", .s sensor), ("value", .n value)]

/-- Puts readings of a sensor, negative ones and fractions among them. -/
def calls : List ItemCall :=
  ["10", "-0.5", "9.75", "-12", "0.001"].map fun value =>
    .put { tableName? := some "readings", item? := some (reading "a" value) }

/-- Asks for the readings of a sensor, the largest first. -/
def latest : TypedRequest :=
  { tableName? := some "readings", keyCondition? := some "sensor = :s", values? := some [(":s", .s "a")],
    scanIndexForward? := some false }

/-- The text of a reading's value. -/
def valueText? (item : Item) : Option String :=
  match Keyed.lookup "value" item with
  | some (.n text) => some text
  | _ => none

end Readings

open Readings in
/-- The readings of a sensor come from the largest to the smallest. -/
theorem query_in_range_order_of_readings :
    Store.new [some readings] = .ok empty ∧
    ∃ page, (empty.run calls).query latest = .ok page ∧
      page.items.map valueText? = [some "10", some "9.75", some "0.001", some "-0.5", some "-12"] ∧
      page.items.Pairwise (InRangeOrder readings .lt) := by
  have opened : Store.new [some readings] = .ok empty := rfl
  have plainNames : ∀ t, some t ∈ [some readings] → StorageKey.separator ∉ Text.utf8 t.name := by
    intro t member
    cases List.mem_singleton.mp member
    decide +kernel
  have table : (empty.run calls).table latest.tableName? = .ok readings := by
    rw [Store.table.eq_def, tables_run]
    rfl
  have shown : ((empty.run calls).query latest).toOption.map (fun page => page.items.map valueText?) =
      some [some "10", some "9.75", some "0.001", some "-0.5", some "-12"] := by
    decide +kernel
  obtain ⟨page, found, texts⟩ := Option.map_eq_some_iff.mp shown
  have done := Outcome.ok_of_toOption found
  exact ⟨opened, page, done, texts, query_in_range_order opened plainNames calls table rfl rfl done⟩

end Store

end DocTable
