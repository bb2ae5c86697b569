import DocTable.Proofs.Store.Sound
import Mathlib

/-!
# The journal of a store

Seen from outside, a store is a map from slots to items, and each call that succeeds changes it at
one slot at most.  The journal of a sequence of calls lists these changes, the latest first.  It
knows nothing of storage keys and stored forms: what is at a slot is what the latest change of this
slot has left there (`Journal.current`).

The store agrees with its journal after every sequence of calls (`Mirrors.ofCalls`), so getting an
item answers with what was written last at its slot, a write that fails changes nothing, one that
succeeds changes no other slot, and the former and the new item that a write answers with are those
that getting the item before and after it answers with (`run_refines_journal`).
-/

namespace DocTable

set_option autoImplicit false

/-- What a write has left at a slot: an item, or none. -/
structure Change where
  slot : Slot
  item? : Option Item

/-- Changes, the latest first. -/
abbrev Journal := List Change

namespace Journal

/-- What the latest change of a slot has left there. -/
def current (journal : Journal) (slot : Slot) : Option Item :=
  (journal.find? fun change => change.slot = slot).bind Change.item?

/-- What an update makes of the item at a slot, or of the key of its request. -/
def updated? (t : TableSchema) (r : TypedRequest) (old? : Option Item) : Option Item := do
  let text ← r.update?
  let key ← (t.extractKey (r.key?.getD [])).toOption
  let actions ← (UpdateAction.parse text r.context).toOption
  (UpdateAction.apply actions (old?.getD key)).toOption

/-- The change that a call makes if it succeeds.  An update starts from what the journal has at its
slot. -/
def change? (s : Store) (journal : Journal) : ItemCall → Option Change
  | .put r => do
    let t ← (s.table r.tableName?).toOption
    let item ← r.item?
    let slot ← t.slot? item
    return ⟨slot, some item⟩
  | .update r => do
    let t ← (s.table r.tableName?).toOption
    let slot ← t.slot? (r.key?.getD [])
    let new ← updated? t r (journal.current slot)
    return ⟨slot, some new⟩
  | .delete r => do
    let t ← (s.table r.tableName?).toOption
    let slot ← t.slot? (r.key?.getD [])
    return ⟨slot, none⟩
  | .get _ => none

/-- Enters the change of a call that succeeds. -/
def enter (s : Store) (journal : Journal) (call : ItemCall) : Journal :=
  match (s.perform call).2 with
  | .ok _ => (journal.change? s call).toList ++ journal
  | .error _ => journal

/-- The journal of calls in order, on top of another. -/
def ofCalls (s : Store) (journal : Journal) : List ItemCall → Journal
  | [] => journal
  | call :: rest => ofCalls (s.perform call).1 (journal.enter s call) rest

theorem current_cons (change : Change) (journal : Journal) (slot : Slot) :
    current (change :: journal) slot =
      if change.slot = slot then change.item? else current journal slot := by
  rw [current, List.find?_cons]
  by_cases here : change.slot = slot
  · simp [here]
  · simp [here, current]

end Journal

namespace Store

/-- A store holds at every slot of its tables what a journal says. -/
def Mirrors (s : Store) (journal : Journal) : Prop :=
  ∀ ⦃name : String⦄ ⦃t : TableSchema⦄ ⦃slot : Slot⦄, Keyed.lookup name s.tables = some t →
    slot.Fits t → s.load slot.place = journal.current slot

/-- A request reads the whole item of a slot. -/
structure Reads (s : Store) (r : TypedRequest) (t : TableSchema) (slot : Slot) : Prop where
  table : s.table r.tableName? = .ok t
  addressed : t.slot? (r.key?.getD []) = some slot
  whole : Projection.texts? r.projection? = none

/-! ## Getting an item -/

theorem Reads.get_eq {s : Store} {r : TypedRequest} {t : TableSchema} {slot : Slot}
    (reads : s.Reads r t slot) : s.get r = .ok ⟨s.load slot.place, r.capacity? t⟩ := by
  obtain ⟨key, extracted⟩ := TableSchema.extractKey_of_slot? reads.addressed
  have located : address t r = .ok (key, slot.place) :=
    address_eq_ok_iff.mpr ⟨extracted, slot, reads.addressed, rfl⟩
  simp only [get, reads.table, located, bind, Except.bind]
  cases s.load slot.place with
  | none => rfl
  | some item =>
    simp only [Item.project, reads.whole]
    rfl

/-- Reading a slot is the same in two stores with the same tables that load the same there. -/
theorem Reads.get_congr {s after : Store} {r : TypedRequest} {t : TableSchema} {slot : Slot}
    (reads : s.Reads r t slot) (tables : after.tables = s.tables)
    (loaded : after.load slot.place = s.load slot.place) : after.get r = s.get r := by
  have readsAfter : after.Reads r t slot :=
    ⟨(table_congr tables _).trans reads.table, reads.addressed, reads.whole⟩
  rw [readsAfter.get_eq, reads.get_eq, loaded]

/-! ## The change of a call -/

theorem change?_of_accepts {s after : Store} {journal : Journal} {t : TableSchema} {slot : Slot}
    {call : ItemCall} {new? : Option Item} {output : ItemOutput} (mirrors : s.Mirrors journal)
    (accepted : Accepts s t slot call new? after output) :
    journal.change? s call = some ⟨slot, new?⟩ := by
  obtain ⟨name, registered⟩ := accepted.registered
  have current : journal.current slot = s.load slot.place :=
    (mirrors registered accepted.fits).symm
  cases accepted with
  | put given table addressed =>
    simp [Journal.change?, table, given, addressed, Except.toOption]
  | update given table extracted addressed parsed _ _ applied =>
    simp [Journal.change?, Journal.updated?, table, given, addressed, extracted, parsed, current,
      applied, Except.toOption]
  | delete table addressed =>
    simp [Journal.change?, table, addressed, Except.toOption]

theorem Mirrors.accepts {s after : Store} {journal : Journal} {t : TableSchema} {slot : Slot}
    {call : ItemCall} {new? : Option Item} {output : ItemOutput} (sound : s.Sound)
    (mirrors : s.Mirrors journal) (accepted : Accepts s t slot call new? after output) :
    after.Mirrors (⟨slot, new?⟩ :: journal) := by
  intro name u other registered fits
  rw [accepted.tables_eq] at registered
  rw [accepted.load_eq sound.ascending, Journal.current_cons]
  obtain ⟨_, registeredT⟩ := accepted.registered
  by_cases same : slot.place = other.place
  · have slots := (sound.slot_injective registeredT registered accepted.fits fits same).2
    rw [if_pos same, if_pos slots]
  · have slots : slot ≠ other := fun equal => same (congrArg Slot.place equal)
    rw [if_neg same, if_neg slots]
    exact mirrors registered fits

theorem Mirrors.perform {s : Store} {journal : Journal} (sound : s.Sound)
    (mirrors : s.Mirrors journal) (call : ItemCall) :
    (s.perform call).1.Mirrors (journal.enter s call) := by
  rw [Journal.enter]
  cases answer : (s.perform call).2 with
  | error cause =>
    rw [perform_error answer]
    exact mirrors
  | ok output =>
    cases write : call.isWrite with
    | false =>
      cases call with
      | get r => exact mirrors
      | _ => cases write
    | true =>
      obtain ⟨t, slot, new?, accepted⟩ := accepts_of_perform write answer
      simp only [change?_of_accepts mirrors accepted]
      exact mirrors.accepts sound accepted

/-- A store agrees with its journal after every sequence of calls. -/
theorem Mirrors.ofCalls {s : Store} {journal : Journal} (sound : s.Sound)
    (mirrors : s.Mirrors journal) (calls : List ItemCall) :
    (s.run calls).Mirrors (Journal.ofCalls s journal calls) := by
  induction calls generalizing s journal with
  | nil => exact mirrors
  | cons call rest ih => exact ih (sound.perform call) (mirrors.perform sound call)

theorem Mirrors.new {schemas : List (Option TableSchema)} {s : Store}
    (opened : Store.new schemas = .ok s) : s.Mirrors [] := by
  intro name t slot _ _
  rw [load, (new_eq_ok opened).2]
  rfl

/-! ## Answers -/

theorem Accepts.output_all_old {s after : Store} {t : TableSchema} {slot : Slot} {call : ItemCall}
    {new? : Option Item} {output : ItemOutput}
    (accepted : Accepts s t slot call new? after output)
    (mode : call.request.returnValues = "ALL_OLD") : output.item? = s.load slot.place := by
  cases accepted with
  | put => exact if_pos mode
  | update => exact if_pos mode
  | delete => exact if_pos mode

theorem Accepts.output_all_new {s after : Store} {t : TableSchema} {slot : Slot}
    {r : TypedRequest} {new? : Option Item} {output : ItemOutput}
    (accepted : Accepts s t slot (.update r) new? after output)
    (mode : r.returnValues = "ALL_NEW") : output.item? = new? := by
  cases accepted with
  | update =>
    simp only [updateAnswer]
    rw [if_neg (by rw [mode]; decide), if_pos mode]

/-- **The operations on single items are those of a map from slots to items.**  After any calls,
getting an item answers with what was written last at its slot and was not deleted since; a call that
fails leaves the store as it was; a write that succeeds changes what is read at its own slot only,
answers with the former item as it was read before, and an update answers with the new item as it is
read afterwards. -/
theorem run_refines_journal {schemas : List (Option TableSchema)} {start : Store}
    (opened : Store.new schemas = .ok start) (calls : List ItemCall) :
    let s := start.run calls
    let journal := Journal.ofCalls start [] calls
    (∀ g t slot, s.Reads g t slot → s.get g = .ok ⟨journal.current slot, g.capacity? t⟩) ∧
    (∀ call cause, (s.perform call).2 = .error cause → (s.perform call).1 = s) ∧
    (∀ call output, call.isWrite = true → (s.perform call).2 = .ok output →
      ∃ change, journal.change? s call = some change ∧
        (∀ g t, s.Reads g t change.slot →
          (s.perform call).1.get g = .ok ⟨change.item?, g.capacity? t⟩) ∧
        (∀ g t other, s.Reads g t other → other ≠ change.slot →
          (s.perform call).1.get g = s.get g) ∧
        (call.request.returnValues = "ALL_OLD" → ∀ g t, s.Reads g t change.slot →
          s.get g = .ok ⟨output.item?, g.capacity? t⟩) ∧
        (∀ r, call = .update r → r.returnValues = "ALL_NEW" → ∀ g t, s.Reads g t change.slot →
          (s.perform call).1.get g = .ok ⟨output.item?, g.capacity? t⟩)) := by
  intro s journal
  have sound : s.Sound := (Sound.new opened).run calls
  have mirrors : s.Mirrors journal := (Mirrors.new opened).ofCalls (Sound.new opened) calls
  have fitsOf : ∀ {g t slot}, s.Reads g t slot → slot.Fits t :=
    fun reads => TableSchema.fits_of_slot? reads.addressed
  refine ⟨fun g t slot reads => ?_, fun call cause failed => perform_error failed, ?_⟩
  · obtain ⟨name, registered⟩ := lookup_of_table reads.table
    rw [reads.get_eq, mirrors registered (fitsOf reads)]
  · intro call output write done
    obtain ⟨t, slot, new?, accepted⟩ := accepts_of_perform write done
    have load := accepted.load_eq sound.ascending
    have readsAfter : ∀ {g u other}, s.Reads g u other → (s.perform call).1.Reads g u other :=
      fun reads => ⟨(table_congr accepted.tables_eq _).trans reads.table, reads.addressed,
        reads.whole⟩
    have readNew : ∀ g u, s.Reads g u slot →
        (s.perform call).1.get g = .ok ⟨new?, g.capacity? u⟩ := by
      intro g u reads
      rw [(readsAfter reads).get_eq, load, if_pos rfl]
    refine ⟨⟨slot, new?⟩, change?_of_accepts mirrors accepted, readNew, ?_, ?_, ?_⟩
    · intro g u other reads distinct
      obtain ⟨_, registeredT⟩ := accepted.registered
      obtain ⟨_, registeredU⟩ := lookup_of_table reads.table
      refine reads.get_congr accepted.tables_eq ?_
      rw [load, if_neg]
      intro same
      exact distinct
        (sound.slot_injective registeredT registeredU accepted.fits (fitsOf reads) same).2.symm
    · intro mode g u reads
      rw [reads.get_eq, accepted.output_all_old mode]
    · rintro r rfl mode g u reads
      rw [accepted.output_all_new mode]
      exact readNew g u reads

/-! ## A run -/

namespace Sample

/-- A table of orders by customer and number. -/
def orders : TableSchema := ⟨"orders", ⟨"customer", "S"⟩, ⟨"number", "N"⟩, []⟩

/-- The key of an order. -/
def order (customer number : String) : Item := [("customer", .s customer), ("number", .n number)]

/-- Puts an order with a state and asks for the former one. -/
def put (customer number state : String) : ItemCall :=
  .put { tableName? := some "orders", item? := some (order customer number ++ [("state", .s state)]),
         returnValues := "ALL_OLD" }

/-- Gets an order. -/
def get (customer number : String) : TypedRequest :=
  { tableName? := some "orders", key? := some (order customer number) }

end Sample

/-- The number of an order is one whether it is written `1` or `1.0`, so the second write of it
replaces the first one, and the order of another customer stays. -/
theorem run_refines_journal_of_orders :
    Store.new [some Sample.orders] = .ok ⟨[("orders", Sample.orders)], []⟩ ∧
    let s := Store.run ⟨[("orders", Sample.orders)], []⟩
      [Sample.put "ann" "1" "open", Sample.put "bob" "1" "open", Sample.put "ann" "1.0" "paid"]
    s.get (Sample.get "ann" "1") =
      .ok ⟨some (Sample.order "ann" "1.0" ++ [("state", .s "paid")]), none⟩ ∧
    s.get (Sample.get "bob" "1") =
      .ok ⟨some (Sample.order "bob" "1" ++ [("state", .s "open")]), none⟩ := by
  have opened : Store.new [some Sample.orders] = .ok ⟨[("orders", Sample.orders)], []⟩ := rfl
  refine ⟨opened, ?_⟩
  intro s
  have refined := (run_refines_journal opened
    [Sample.put "ann" "1" "open", Sample.put "bob" "1" "open", Sample.put "ann" "1.0" "paid"]).1
  refine ⟨?_, ?_⟩
  · refine (refined _ Sample.orders
      ⟨"orders", .text "ann", some (.number ⟨0x3FF0000000000000⟩)⟩ ⟨?_, ?_, ?_⟩).trans ?_
    · cbv
    · cbv
    · cbv
    · cbv
  · refine (refined _ Sample.orders
      ⟨"orders", .text "bob", some (.number ⟨0x3FF0000000000000⟩)⟩ ⟨?_, ?_, ?_⟩).trans ?_
    · cbv
    · cbv
    · cbv
    · cbv

end Store

end DocTable
