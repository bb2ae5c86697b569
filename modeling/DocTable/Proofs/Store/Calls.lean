import DocTable.Proofs.Store.Stored
import DocTable.Proofs.Table.Key
import DocTable.Store.Read
import DocTable.Store.Write

/-!
# Calls on single items

The four operations on single items as calls that a store answers one after the other
(`Store.perform`, `Store.run`).  A call that fails leaves the store as it was.

`Store.Accepts` says once what a successful write does: which slot it addresses, what it leaves
there, the store after it and the answer.  All that the operations do to a store is read off it, and
nothing else unfolds them.
-/

namespace DocTable

set_option autoImplicit false

/-- A call of an operation on a single item. -/
inductive ItemCall where
  | put (request : TypedRequest)
  | update (request : TypedRequest)
  | delete (request : TypedRequest)
  | get (request : TypedRequest)

namespace ItemCall

/-- The request of a call. -/
def request : ItemCall → TypedRequest
  | .put r | .update r | .delete r | .get r => r

/-- Whether a call can change the store. -/
def isWrite : ItemCall → Bool
  | .get _ => false
  | _ => true

end ItemCall

namespace Store

/-- The store after a write, which is the old one if the write fails, and the answer. -/
def settle (s : Store) :
    Except StoreError (Store × ItemOutput) → Store × Except StoreError ItemOutput
  | .ok (after, output) => (after, .ok output)
  | .error cause => (s, .error cause)

/-- The store after a call, and the answer. -/
def perform (s : Store) : ItemCall → Store × Except StoreError ItemOutput
  | .put r => s.settle (s.put r)
  | .update r => s.settle (s.update r)
  | .delete r => s.settle (s.delete r)
  | .get r => (s, s.get r)

/-- The store after calls in order. -/
def run (s : Store) : List ItemCall → Store
  | [] => s
  | call :: rest => run (s.perform call).1 rest

/-! ## Tables and addresses -/

theorem lookup_of_table {s : Store} {name? : Option String} {t : TableSchema}
    (found : s.table name? = .ok t) : ∃ name, Keyed.lookup name s.tables = some t := by
  unfold table at found
  split at found
  · cases found
  · rename_i name
    split at found
    · rename_i schema registered
      cases found
      exact ⟨name, registered⟩
    · cases found

theorem table_congr {s after : Store} (tables : after.tables = s.tables) (name? : Option String) :
    after.table name? = s.table name? := by
  unfold table
  rw [tables]

/-- The slot that a request addresses, and the key that it extracts. -/
theorem address_eq_ok_iff {t : TableSchema} {r : TypedRequest} {key : Item} {place : Bytes} :
    address t r = .ok (key, place) ↔ t.extractKey (r.key?.getD []) = .ok key ∧
      ∃ slot, t.slot? (r.key?.getD []) = some slot ∧ place = slot.place := by
  rw [address]
  cases extracted : t.extractKey (r.key?.getD []) with
  | error cause => simp
  | ok found =>
    rw [← TableSchema.slot?_extractKey extracted, ← TableSchema.storageKey_eq_ok_iff]
    cases stored : t.storageKey found with
    | error cause => simp [stored]
    | ok bytes => simp [stored, eq_comm]

/-! ## Writes -/

/-- What a write of a slot of a table does when it succeeds: the call, what it leaves at the slot,
the store after it and the answer. -/
inductive Accepts (s : Store) (t : TableSchema) (slot : Slot) :
    ItemCall → Option Item → Store → ItemOutput → Prop where
  | put {r : TypedRequest} {item : Item} {form : StoredItem}
      (given : r.item? = some item)
      (table : s.table r.tableName? = .ok t)
      (addressed : t.slot? item = some slot)
      (stored : item.stored = .ok form)
      (condition : checkCondition r ((s.load slot.place).getD []) = .ok ())
      (free : reservedStart.isPrefixOf slot.place = false) :
      Accepts s t slot (.put r) (some item)
        { s with entries := Keyed.insert slot.place form s.entries }
        ⟨if r.returnValues = "ALL_OLD" then s.load slot.place else none, r.capacity? t⟩
  | update {r : TypedRequest} {text : String} {key new : Item} {actions : List UpdateAction}
      {form : StoredItem}
      (given : r.update? = some text)
      (table : s.table r.tableName? = .ok t)
      (extracted : t.extractKey (r.key?.getD []) = .ok key)
      (addressed : t.slot? (r.key?.getD []) = some slot)
      (parsed : UpdateAction.parse text r.context = .ok actions)
      (kept : changedKey? key actions = none)
      (condition : checkCondition r ((s.load slot.place).getD []) = .ok ())
      (applied : UpdateAction.apply actions ((s.load slot.place).getD key) = .ok new)
      (stored : new.stored = .ok form)
      (free : reservedStart.isPrefixOf slot.place = false) :
      Accepts s t slot (.update r) (some new)
        { s with entries := Keyed.insert slot.place form s.entries }
        ⟨updateAnswer r.returnValues actions (s.load slot.place) new, r.capacity? t⟩
  | delete {r : TypedRequest}
      (table : s.table r.tableName? = .ok t)
      (addressed : t.slot? (r.key?.getD []) = some slot)
      (condition : checkCondition r ((s.load slot.place).getD []) = .ok ()) :
      Accepts s t slot (.delete r) none
        { s with entries := Keyed.erase slot.place s.entries }
        ⟨if r.returnValues = "ALL_OLD" then s.load slot.place else none, r.capacity? t⟩

theorem save_eq_ok {s after : Store} {place : Bytes} {form : StoredItem}
    (saved : s.save place form = .ok after) : reservedStart.isPrefixOf place = false ∧
      after = { s with entries := Keyed.insert place form s.entries } := by
  rw [save] at saved
  split at saved
  · cases saved
  · rename_i free
    cases saved
    exact ⟨Bool.not_eq_true _ ▸ free, rfl⟩

theorem accepts_of_put {s after : Store} {r : TypedRequest} {output : ItemOutput}
    (done : s.put r = .ok (after, output)) :
    ∃ t slot new?, Accepts s t slot (.put r) new? after output := by
  rw [put] at done
  split at done
  · cases done
  · rename_i item given
    obtain ⟨t, table, done⟩ := Outcome.ok_of_bind done
    split at done
    · cases done
    · split at done
      · cases done
      · rename_i place placed
        obtain ⟨form, packed, done⟩ := Outcome.ok_of_bind done
        obtain ⟨_, condition, done⟩ := Outcome.ok_of_bind done
        obtain ⟨saved, isSaved, done⟩ := Outcome.ok_of_bind done
        obtain ⟨slot, addressed, rfl⟩ := TableSchema.storageKey_eq_ok_iff.mp placed
        obtain ⟨free, rfl⟩ := save_eq_ok isSaved
        cases done
        exact ⟨t, slot, some item, .put given table addressed (Outcome.ok_of_mapError packed)
          condition free⟩

theorem accepts_of_update {s after : Store} {r : TypedRequest} {output : ItemOutput}
    (done : s.update r = .ok (after, output)) :
    ∃ t slot new?, Accepts s t slot (.update r) new? after output := by
  rw [update] at done
  split at done
  · cases done
  · rename_i text given
    obtain ⟨t, table, done⟩ := Outcome.ok_of_bind done
    obtain ⟨⟨key, place⟩, located, done⟩ := Outcome.ok_of_bind done
    obtain ⟨extracted, slot, addressed, rfl⟩ := address_eq_ok_iff.mp located
    dsimp only at done
    split at done
    · cases done
    · rename_i actions parsed
      split at done
      · cases done
      · rename_i kept
        obtain ⟨_, condition, done⟩ := Outcome.ok_of_bind done
        split at done
        · cases done
        · rename_i new applied
          obtain ⟨form, packed, done⟩ := Outcome.ok_of_bind done
          obtain ⟨saved, isSaved, done⟩ := Outcome.ok_of_bind done
          obtain ⟨free, rfl⟩ := save_eq_ok isSaved
          cases done
          exact ⟨t, slot, some new, .update given table extracted addressed parsed kept condition
            applied (Outcome.ok_of_mapError packed) free⟩

theorem accepts_of_delete {s after : Store} {r : TypedRequest} {output : ItemOutput}
    (done : s.delete r = .ok (after, output)) :
    ∃ t slot new?, Accepts s t slot (.delete r) new? after output := by
  rw [delete] at done
  obtain ⟨t, table, done⟩ := Outcome.ok_of_bind done
  obtain ⟨⟨key, place⟩, located, done⟩ := Outcome.ok_of_bind done
  obtain ⟨_, slot, addressed, rfl⟩ := address_eq_ok_iff.mp located
  obtain ⟨_, condition, done⟩ := Outcome.ok_of_bind done
  cases done
  exact ⟨t, slot, none, .delete table addressed condition⟩

/-- A call that fails leaves the store as it was. -/
theorem perform_error {s : Store} {call : ItemCall} {cause : StoreError}
    (failed : (s.perform call).2 = .error cause) : (s.perform call).1 = s := by
  have settled : ∀ result : Except StoreError (Store × ItemOutput),
      (s.settle result).2 = .error cause → (s.settle result).1 = s := by
    intro result failed
    match result with
    | .ok _ => cases failed
    | .error _ => rfl
  cases call with
  | put r => exact settled _ failed
  | update r => exact settled _ failed
  | delete r => exact settled _ failed
  | get r => rfl

/-- A write that succeeds is accepted. -/
theorem accepts_of_perform {s : Store} {call : ItemCall} {output : ItemOutput}
    (write : call.isWrite = true) (done : (s.perform call).2 = .ok output) :
    ∃ t slot new?, Accepts s t slot call new? (s.perform call).1 output := by
  have settled : ∀ result : Except StoreError (Store × ItemOutput),
      (s.settle result).2 = .ok output → result = .ok ((s.settle result).1, output) := by
    intro result done
    match result with
    | .ok _ =>
      cases done
      rfl
    | .error _ => cases done
  cases call with
  | put r => exact accepts_of_put (settled _ done)
  | update r => exact accepts_of_update (settled _ done)
  | delete r => exact accepts_of_delete (settled _ done)
  | get r => cases write

/-- A call leaves the store as it was, or it is a write that was accepted. -/
theorem perform_cases (s : Store) (call : ItemCall) : (s.perform call).1 = s ∨
    ∃ t slot new? output, Accepts s t slot call new? (s.perform call).1 output := by
  cases answer : (s.perform call).2 with
  | error cause => exact .inl (perform_error answer)
  | ok output =>
    cases write : call.isWrite with
    | false =>
      cases call with
      | get r => exact .inl rfl
      | _ => cases write
    | true =>
      obtain ⟨t, slot, new?, accepted⟩ := accepts_of_perform write answer
      exact .inr ⟨t, slot, new?, output, accepted⟩

/-- A call that is accepted does what it is accepted for. -/
theorem perform_of_accepts {s after : Store} {t : TableSchema} {slot : Slot} {call : ItemCall}
    {new? : Option Item} {output : ItemOutput} (accepted : Accepts s t slot call new? after output) :
    s.perform call = (after, .ok output) := by
  have packed : ∀ {item : Item} {form : StoredItem}, item.stored = .ok form → pack item = .ok form := by
    intro item form stored
    rw [pack, stored]
    rfl
  cases accepted with
  | put given table addressed stored condition free =>
    obtain ⟨key, extracted⟩ := TableSchema.extractKey_of_slot? addressed
    have placed := TableSchema.storageKey_eq_ok_iff.mpr ⟨slot, addressed, rfl⟩
    simp only [perform, put, given, table, extracted, placed, packed stored, condition, save, free, bind,
      Except.bind, pure, Except.pure, Bool.false_eq_true, if_false, settle]
  | update given table extracted addressed parsed kept condition applied stored free =>
    have located := address_eq_ok_iff.mpr ⟨extracted, slot, addressed, rfl⟩
    simp only [perform, update, given, table, located, parsed, kept, condition, applied, packed stored,
      save, free, bind, Except.bind, pure, Except.pure, Bool.false_eq_true, if_false, settle]
  | delete table addressed condition =>
    obtain ⟨key, extracted⟩ := TableSchema.extractKey_of_slot? addressed
    have located := address_eq_ok_iff.mpr ⟨extracted, slot, addressed, rfl⟩
    simp only [perform, delete, table, located, condition, bind, Except.bind, pure, Except.pure, settle]

namespace Accepts

variable {s after : Store} {t : TableSchema} {slot : Slot} {call : ItemCall} {new? : Option Item}
  {output : ItemOutput}

theorem tables_eq (accepted : Accepts s t slot call new? after output) :
    after.tables = s.tables := by
  cases accepted <;> rfl

theorem registered (accepted : Accepts s t slot call new? after output) :
    ∃ name, Keyed.lookup name s.tables = some t := by
  cases accepted with
  | put _ table => exact lookup_of_table table
  | update _ table => exact lookup_of_table table
  | delete table => exact lookup_of_table table

theorem fits (accepted : Accepts s t slot call new? after output) : slot.Fits t := by
  cases accepted with
  | put _ _ addressed => exact TableSchema.fits_of_slot? addressed
  | update _ _ _ addressed => exact TableSchema.fits_of_slot? addressed
  | delete _ addressed => exact TableSchema.fits_of_slot? addressed

/-- What is loaded after a write: at the slot's place what the write left there, elsewhere the same
as before. -/
theorem load_eq (accepted : Accepts s t slot call new? after output)
    (ascending : Keyed.Ascending s.entries) (place : Bytes) :
    after.load place = if slot.place = place then new? else s.load place := by
  have inserted : ∀ (form : StoredItem) (item : Item), item.stored = .ok form →
      load { s with entries := Keyed.insert slot.place form s.entries } place =
        if slot.place = place then some item else s.load place := by
    intro form item stored
    simp only [load, Keyed.lookup_insert]
    split
    · exact Item.item?_of_stored stored
    · rfl
  cases accepted with
  | put _ _ _ stored => exact inserted _ _ stored
  | update _ _ _ _ _ _ _ _ stored => exact inserted _ _ stored
  | delete =>
    simp only [load, Keyed.lookup_erase ascending]
    split <;> rfl

theorem ascending (accepted : Accepts s t slot call new? after output)
    (ascending : Keyed.Ascending s.entries) : Keyed.Ascending after.entries := by
  cases accepted with
  | put => exact ascending.insert _ _
  | update => exact ascending.insert _ _
  | delete => exact ascending.erase _

end Accepts

end Store

end DocTable
