import DocTable.Proofs.Client.DirectiveUpdates
import DocTable.Proofs.Number.Integers
import Mathlib.Data.List.Nodup

/-!
# Optimistic locking

Clients that share an item can guard it by a version: an update asks in its filter for the version that it
has seen, and increments the version.  Versions are compared and incremented exactly, so of all updates that
expect the same version at most one takes effect, and the version counts the updates that do
(`VersionedUpdate.optimistic_locking`).

One update leaves the store as it was, or it finds the version that it expects and leaves the next one
(`VersionedUpdate.step_cases`).  Over a run the updates that take effect therefore expect one version after
the other (`VersionedUpdate.run_version`).
-/

namespace DocTable

set_option autoImplicit false

/-! ## Versions and directives -/

/-- The text of a number that the item at a slot has for its version. -/
def Store.version? (s : Store) (slot : Slot) (version : String) : Option String := do
  let item ← s.load slot.place
  match Keyed.lookup version item with
  | some (.n text) => some text
  | _ => none

/-- The item at a slot has an integer for its version. -/
def Store.HasVersion (s : Store) (slot : Slot) (version : String) (n : Int) : Prop :=
  s.version? slot version = some (toString n)

instance (s : Store) (slot : Slot) (version : String) (n : Int) :
    Decidable (s.HasVersion slot version n) :=
  inferInstanceAs (Decidable (s.version? slot version = some (toString n)))

/-- Directives increment an attribute by one, and do nothing else to it. -/
def Directive.RaisesOnce (version : String) (directives : List Directive) : Prop :=
  ∃ earlier one later, directives.flatMap Directive.entries = earlier ++ (.inc, version, one) :: later ∧
    Directive.operand? one = some (.n (toString (1 : Int))) ∧
    ∀ field ∈ earlier ++ later, field.2.1 ≠ version

/-- A filter asks for a version. -/
def Document.AsksFor (filter : Document) (version : String) (n : Int) : Prop :=
  ∃ value, (version, value) ∈ filter ∧ (Resolved.ofValue value).isEquality = true ∧
    (Resolved.ofValue value).operand.encode = .ok (.n (toString n))

variable {version : String} {n : Int}

theorem Store.hasVersion_iff {s : Store} {slot : Slot} :
    s.HasVersion slot version n ↔
      ∃ item, s.load slot.place = some item ∧ Keyed.lookup version item = some (.n (toString n)) := by
  rw [HasVersion, version?, Option.bind_eq_bind, Option.bind_eq_some_iff]
  refine exists_congr fun item => and_congr_right fun _ => ?_
  constructor
  · intro read
    split at read
    · rename_i text found
      cases read
      exact found
    · cases read
  · intro found
    rw [found]

/-- Directives that increment a version leave the next one. -/
theorem Directive.RaisesOnce.lookup_meaning? {directives : List Directive} {old new : Item}
    (raises : RaisesOnce version directives) (bound : n.natAbs + 1 < UInt64.size)
    (current : Keyed.lookup version old = some (.n (toString n)))
    (meant : Directive.meaning? directives old = some new) :
    Keyed.lookup version new = some (.n (toString (n + 1))) := by
  obtain ⟨earlier, one, later, split, operand, others⟩ := raises
  rw [Directive.meaning?, split, List.foldlM_append] at meant
  obtain ⟨between, before, meant⟩ := Option.bind_eq_some_iff.mp meant
  rw [List.foldlM_cons] at meant
  obtain ⟨raised, increment, after⟩ := Option.bind_eq_some_iff.mp meant
  have reached : Keyed.lookup version between = some (.n (toString n)) := by
    rw [Directive.lookup_effects (fun field member => others field (List.mem_append_left _ member)) before]
    exact current
  have sum : AttributeValue.add (.n (toString n)) (.n (toString (1 : Int))) = .ok (.n (toString (n + 1))) :=
    AttributeValue.add_integers (by omega) (by decide) (by omega)
  simp only [Directive.effect?, operand, reached, sum, Except.toOption, Option.bind_eq_bind,
    Option.bind_some] at increment
  cases increment
  rw [Directive.lookup_effects (fun field member => others field (List.mem_append_right _ member)) after,
    Keyed.lookup_insert_self]

/-- A filter that asks for a version selects no item of another version. -/
theorem Document.AsksFor.eq_of_selects {filter : Document} {expected : Int} {item : Item}
    (asks : filter.AsksFor version expected) (boundN : n.natAbs < UInt64.size)
    (boundExpected : expected.natAbs < UInt64.size)
    (current : Keyed.lookup version item = some (.n (toString n)))
    (selected : filter.selects item = true) : n = expected := by
  obtain ⟨value, member, equality, encoded⟩ := asks
  have met := List.all_eq_true.mp selected _ member
  rw [Document.meets, current, encoded] at met
  dsimp only at met
  rw [(Resolved.isEquality_iff _).mp equality] at met
  exact (AttributeValue.equal_integers boundN boundExpected).mp met

/-! ## Updates that are guarded by a version -/

/-- An update by a client with a session of its own, and the version that it expects. -/
structure VersionedUpdate where
  client : TableClient
  session : Session
  filter : Document
  change : Document
  expected : Int64

namespace VersionedUpdate

/-- The store after an update. -/
def step (store : Store) (u : VersionedUpdate) : Store :=
  (u.client.perform { u.session with store := store } [] (.update u.filter u.change)).1.store

/-- The store after updates, one after the other. -/
def run (store : Store) (updates : List VersionedUpdate) : Store := updates.foldl step store

open Classical in
/-- The updates of a run that change the store. -/
noncomputable def changing (store : Store) : List VersionedUpdate → List VersionedUpdate
  | [] => []
  | u :: rest =>
    if u.step store = store then changing store rest else u :: changing (u.step store) rest

/-- An update through a client that was connected to a table, for the item of a slot: it asks for the
version that it expects, and increments the version. -/
structure Guards (start : Store) (name : String) (t : TableSchema) (slot : Slot) (version : String)
    (u : VersionedUpdate) : Prop where
  connected : ∃ earlier, TableClient.connect (start.run earlier) name = .ok u.client
  told : ∃ key, t.Tells u.filter key ∧ t.slot? key = some slot
  asks : u.filter.AsksFor version u.expected.toInt
  raises : ∃ directives, Directive.ofDocument u.change = .ok directives ∧
    Directive.RaisesOnce version directives

/-- The version that an update expects and the one after it are exact numbers, with room to spare. -/
theorem bound_expected (expected : Int64) :
    expected.toInt.natAbs + 1 < UInt64.size ∧ (expected.toInt + 1).natAbs + 1 < UInt64.size := by
  have size : UInt64.size = 18446744073709551616 := rfl
  have low := expected.le_toInt
  have high := expected.toInt_lt
  omega

section Run

variable {schemas : List (Option TableSchema)} {start s : Store} {name : String} {t : TableSchema}
  {slot : Slot} {u : VersionedUpdate} {updates : List VersionedUpdate}

/-- A store in which a table is registered as it was when the store was opened. -/
structure Ready (name : String) (t : TableSchema) (s : Store) : Prop where
  sound : s.Sound
  table : s.table (some name) = .ok t

theorem Ready.step (ready : Ready name t s) (u : VersionedUpdate) : Ready name t (u.step s) := by
  refine ⟨TableClient.sound_perform ready.sound, ?_⟩
  rw [Store.table_congr (show (u.step s).tables = s.tables from TableClient.tables_perform)]
  exact ready.table

theorem Ready.run (ready : Ready name t s) (updates : List VersionedUpdate) :
    Ready name t (run s updates) := by
  induction updates generalizing s with
  | nil => exact ready
  | cons u rest ih => exact ih (ready.step u)

/-- An update leaves the store as it was, or it finds the version that it expects and leaves the next. -/
theorem step_cases (opened : Store.new schemas = .ok start) (table : start.table (some name) = .ok t)
    (guards : u.Guards start name t slot version) (ready : Ready name t s)
    (bound : n.natAbs + 1 < UInt64.size) (versioned : s.HasVersion slot version n) :
    u.step s = s ∨ (n = u.expected.toInt ∧ (u.step s).HasVersion slot version (n + 1)) := by
  have boundExpected := (bound_expected u.expected).1
  obtain ⟨earlier, connected⟩ := guards.connected
  obtain ⟨directives, read, raises⟩ := guards.raises
  obtain ⟨key, tells, addressed⟩ := guards.told
  obtain ⟨schema, client, _, shares⟩ := TableClient.exists_schema_of_connect opened table connected
  by_cases same : u.step s = s
  · exact .inl same
  · rw [step, client] at same
    obtain ⟨other, old, new, happened⟩ := TableClient.updatesBy_of_changed shares ready.sound ready.table
      read same
    obtain ⟨told, tellsToo, addressedToo⟩ := happened.told
    rw [tellsToo.slot?_eq tells, addressed] at addressedToo
    cases addressedToo
    obtain ⟨item, there, current⟩ := Store.hasVersion_iff.mp versioned
    have found := happened.there
    dsimp only at found
    rw [there] at found
    cases found
    have expected := guards.asks.eq_of_selects (by omega) (by omega) current happened.selected
    refine .inr ⟨expected, Store.hasVersion_iff.mpr ⟨new, ?_, ?_⟩⟩
    · rw [step, client]
      exact happened.written
    · exact raises.lookup_meaning? bound current happened.meant

/-- The updates of a run that take effect expect one version after the other, and leave the one behind
them. -/
theorem run_version (opened : Store.new schemas = .ok start) (table : start.table (some name) = .ok t)
    (guarded : ∀ u ∈ updates, u.Guards start name t slot version) (ready : Ready name t s)
    (bound : n.natAbs + 1 < UInt64.size) (versioned : s.HasVersion slot version n) :
    (changing s updates).map (fun u => u.expected.toInt) =
        (List.range (changing s updates).length).map (fun i : Nat => n + (i : Int)) ∧
      (n + (changing s updates).length).natAbs + 1 < UInt64.size ∧
      (run s updates).HasVersion slot version (n + (changing s updates).length) := by
  induction updates generalizing s n with
  | nil =>
    refine ⟨rfl, ?_, ?_⟩
    · simpa [changing] using bound
    · simpa [changing, run] using versioned
  | cons u rest ih =>
    have first := step_cases opened table (guarded u List.mem_cons_self) ready bound versioned
    have guardedRest : ∀ u ∈ rest, u.Guards start name t slot version :=
      fun u member => guarded u (List.mem_cons_of_mem _ member)
    have run_cons : run s (u :: rest) = run (u.step s) rest := rfl
    rw [changing, run_cons]
    split
    · rename_i same
      rw [same]
      exact ih guardedRest ready bound versioned
    · rename_i changed
      obtain ⟨expected, next⟩ := first.resolve_left changed
      have boundNext : (n + 1).natAbs + 1 < UInt64.size := by
        rw [expected]
        exact (bound_expected u.expected).2
      obtain ⟨versions, boundAfter, after⟩ := ih guardedRest (ready.step u) boundNext next
      have count : n + 1 + ((changing (u.step s) rest).length : Int) =
          n + ((u :: changing (u.step s) rest).length : Int) := by
        rw [List.length_cons]
        omega
      rw [count] at boundAfter after
      refine ⟨?_, boundAfter, after⟩
      rw [List.map_cons, versions, List.length_cons, List.range_succ_eq_map, List.map_cons, List.map_map,
        ← expected]
      congr 1
      · omega
      · refine List.map_congr_left fun i _ => ?_
        simp only [Function.comp_apply]
        omega

/-- **Optimistic locking.**  Take an item of a table whose version is an integer of 64 bits, after any calls
of the store, and any run of updates through clients of the table, each of which asks for the version that
it expects and increments the version.  An update that changes the store finds the version that it expects
and leaves the next one.  No two updates that change the store expect the same version, and in the end the
version has been raised by the number of updates that have changed the store. -/
theorem optimistic_locking (opened : Store.new schemas = .ok start)
    (table : start.table (some name) = .ok t) (calls : List ItemCall) {first : Int64}
    (versioned : (start.run calls).HasVersion slot version first.toInt)
    (guarded : ∀ u ∈ updates, u.Guards start name t slot version) :
    let before := start.run calls
    (∀ earlier u later, updates = earlier ++ u :: later → u.step (run before earlier) ≠ run before earlier →
      (run before earlier).HasVersion slot version u.expected.toInt ∧
        (u.step (run before earlier)).HasVersion slot version (u.expected.toInt + 1)) ∧
    ((changing before updates).map expected).Nodup ∧
    (run before updates).HasVersion slot version
      (first.toInt + ((changing before updates).length : Int)) := by
  intro before
  have ready : Ready name t before := by
    refine ⟨(Store.Sound.new opened).run calls, ?_⟩
    rw [Store.table_congr (Store.tables_run start calls)]
    exact table
  have bound := (bound_expected first).1
  obtain ⟨versions, _, after⟩ := run_version opened table guarded ready bound versioned
  refine ⟨fun earlier u later split changed => ?_, ?_, after⟩
  · subst split
    obtain ⟨_, boundThen, versionedThen⟩ := run_version opened table
      (fun u member => guarded u (List.mem_append_left _ member)) ready bound versioned
    obtain ⟨expected, next⟩ := (step_cases opened table
      (guarded u (List.mem_append_right _ List.mem_cons_self)) (ready.run earlier) boundThen
      versionedThen).resolve_left changed
    rw [expected] at versionedThen next
    exact ⟨versionedThen, next⟩
  · have distinct : ((changing before updates).map fun u => u.expected.toInt).Nodup := by
      rw [versions]
      refine List.Nodup.map (fun i j same => ?_) List.nodup_range
      omega
    exact List.Nodup.of_map Int64.toInt (by simpa [Function.comp_def] using distinct)

end Run

namespace Wiki

/-- A table of pages. -/
def pages : TableSchema := ⟨"pages", ⟨"id", "S"⟩, .none, []⟩

/-- A store without pages. -/
def empty : Store := ⟨[("pages", pages)], []⟩

/-- Puts a page, in version seven. -/
def calls : List ItemCall :=
  [.put { tableName? := some "pages", item? := some [("id", .s "home"), ("version", .n "7")] }]

/-- The slot of the page. -/
def home : Slot := ⟨"pages", .text "home", none⟩

/-- An edit of the page by someone who has seen version seven. -/
def edit (text : String) : VersionedUpdate where
  client := .ofTable pages "pages"
  session := { store := empty, source := fun _ => [] }
  filter := [("id", .text "home"), ("version", .integer .int64 7)]
  change := [("$set", .document [("text", .text text)]), ("$inc", .document [("version", .integer .int 1)])]
  expected := 7

theorem guards_edit (text : String) :
    (edit text).Guards empty "pages" pages home "version" where
  connected := ⟨[], rfl⟩
  told := by
    refine ⟨[("id", .s "home")], fun k member => ?_, rfl⟩
    cases List.mem_singleton.mp member
    exact ⟨.s "home", rfl, rfl, rfl⟩
  asks := ⟨.integer .int64 7, by simp [edit], rfl, rfl⟩
  raises := ⟨_, rfl, [(.set, "text", .text text)], .integer .int 1, [], rfl, rfl, by simp⟩

end Wiki

/-- Two people have seen the same version of a page and edit it: the second edit has no effect. -/
theorem optimistic_locking_of_page :
    changing (Wiki.empty.run Wiki.calls) [Wiki.edit "first", Wiki.edit "second"] = [Wiki.edit "first"] ∧
      (run (Wiki.empty.run Wiki.calls) [Wiki.edit "first", Wiki.edit "second"]).HasVersion Wiki.home
        "version" 8 := by
  have opened : Store.new [some Wiki.pages] = .ok Wiki.empty := rfl
  have table : Wiki.empty.table (some "pages") = .ok Wiki.pages := rfl
  have versioned : (Wiki.empty.run Wiki.calls).HasVersion Wiki.home "version" (7 : Int64).toInt := by
    decide +kernel
  have guarded : ∀ u ∈ [Wiki.edit "first", Wiki.edit "second"],
      u.Guards Wiki.empty "pages" Wiki.pages Wiki.home "version" := by
    simp only [List.mem_cons, List.not_mem_nil, or_false]
    rintro u (rfl | rfl) <;> exact Wiki.guards_edit _
  obtain ⟨steps, _, last⟩ := optimistic_locking opened table Wiki.calls versioned guarded
  have raised : ((Wiki.edit "first").step (Wiki.empty.run Wiki.calls)).HasVersion Wiki.home "version" 8 := by
    decide +kernel
  have changed : (Wiki.edit "first").step (Wiki.empty.run Wiki.calls) ≠ Wiki.empty.run Wiki.calls := by
    intro same
    rw [same, Store.HasVersion, versioned] at raised
    exact absurd raised (by decide)
  have kept : (Wiki.edit "second").step ((Wiki.edit "first").step (Wiki.empty.run Wiki.calls)) =
      (Wiki.edit "first").step (Wiki.empty.run Wiki.calls) := by
    by_contra again
    obtain ⟨found, _⟩ := steps [Wiki.edit "first"] (Wiki.edit "second") [] rfl again
    rw [run, List.foldl_cons, List.foldl_nil, Store.HasVersion, raised] at found
    exact absurd found (by decide)
  have counted : changing (Wiki.empty.run Wiki.calls) [Wiki.edit "first", Wiki.edit "second"] =
      [Wiki.edit "first"] := by
    rw [changing, if_neg changed, changing, if_pos kept, changing]
  rw [counted] at last
  exact ⟨counted, last⟩

end VersionedUpdate

end DocTable
