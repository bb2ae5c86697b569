import DocTable.Client.Write
import DocTable.Proofs.Client.Prepared
import DocTable.Proofs.Store.Sound
import DocTable.Proofs.Table.Description

/-!
# Calls of a client that write

The three writing operations of a client as calls (`ClientWrite`, `TableClient.perform`).  A call is
prepared, which can fail; what is prepared is one call of the store; and what the store answers is read,
which can fail as well, after the store has changed (`TableClient.perform_of_refused`,
`TableClient.perform_of_prepared`).

A client that was connected to a table of a store has the table's keys (`TableClient.connect_eq_ok`).
-/

namespace DocTable

set_option autoImplicit false

/-- A call of a client's operation that writes. -/
inductive ClientWrite where
  | put (item : Document)
  | update (filter change : Document)
  | delete (filter : Document)

namespace ClientWrite

/-- Whether an update document is an item that replaces the whole. -/
def isReplacement (change : Document) : Bool := !change.isEmpty && !change.hasDirectives

/-- The operation that a call is compiled to. -/
def operation : ClientWrite → Operation
  | .put _ => .insert
  | .update _ change => if isReplacement change then .replace else .update
  | .delete _ => .delete

/-- The documents that a call is compiled from. -/
def documents (t : TableClient) (s : Session) : ClientWrite → Document × Document
  | .put item => ((t.identified s item).2, [])
  | .update filter change => (filter, change)
  | .delete filter => (filter, [])

/-- The item that a call answers with. -/
def answer? (p : Prepared) (output : ItemOutput) : ClientWrite → Option Item
  | .put _ => Params.attributes? p.request "Item"
  | _ => output.item?

end ClientWrite

/-- The call of a store that a prepared write is. -/
def Prepared.call (p : Prepared) : ItemCall :=
  match p.operation with
  | .delete => .delete p.input
  | .update => .update p.input
  | _ => .put p.input

theorem Prepared.request_call (p : Prepared) : p.call.request = p.input := by
  rw [call]
  split <;> rfl

theorem Prepared.isWrite_call (p : Prepared) : p.call.isWrite = true := by
  rw [call]
  split <;> rfl

namespace Store

/-- A put without a condition of an item that has a slot and a stored form keeps it there. -/
theorem exists_put {s : Store} {t : TableSchema} {slot : Slot} {r : TypedRequest} {item : Item}
    {form : StoredItem} (given : r.item? = some item) (table : s.table r.tableName? = .ok t)
    (addressed : t.slot? item = some slot) (stored : item.stored = .ok form)
    (unconditional : r.condition? = none) (free : reservedStart.isPrefixOf slot.place = false) :
    ∃ after output, s.put r = .ok (after, output) ∧ after.load slot.place = some item := by
  have condition : checkCondition r ((s.load slot.place).getD []) = .ok () := by
    rw [checkCondition, Condition.eval.eq_def, unconditional]
  have done := perform_of_accepts (.put given table addressed stored condition free)
  rw [perform] at done
  cases accepted : s.put r with
  | error cause =>
    rw [accepted] at done
    cases (Prod.ext_iff.mp done).2
  | ok result =>
    rw [accepted] at done
    obtain ⟨after, answer⟩ := Prod.ext_iff.mp done
    refine ⟨result.1, result.2, rfl, ?_⟩
    rw [show result.1 = _ from after, load, Keyed.lookup_insert_self]
    exact Item.item?_of_stored stored

end Store

namespace TableClient

/-- The session after a call, and the answer. -/
def perform (t : TableClient) (s : Session) (options : List RequestOption) :
    ClientWrite → Session × Except ClientError (Option (Fields Value))
  | .put item => t.put s item options
  | .update filter change => t.update s filter change options
  | .delete filter => t.delete s filter options

/-- What a call sends to the store. -/
def prepareWrite (t : TableClient) (s : Session) (options : List RequestOption) (w : ClientWrite) :
    Except ClientError Prepared :=
  t.prepare w.operation (w.documents t s).1 (w.documents t s).2 options

variable {t : TableClient} {s : Session} {options : List RequestOption} {w : ClientWrite}

theorem operation_of_prepare {op : Operation} {d extra : Document} {p : Prepared}
    (prepared : t.prepare op d extra options = .ok p) : p.operation = op := by
  obtain ⟨request, input, _, _, rfl⟩ := prepare_eq_ok prepared
  rfl

/-- Giving an item an identifier leaves the store alone. -/
theorem store_identified (t : TableClient) (s : Session) (item : Document) :
    (t.identified s item).1.store = s.store := by
  rw [identified]
  split <;> rfl

/-- A call that cannot be prepared fails and leaves the store as it was. -/
theorem perform_of_refused {cause : ClientError} (refused : t.prepareWrite s options w = .error cause) :
    (t.perform s options w).1.store = s.store ∧ (t.perform s options w).2 = .error cause := by
  cases w with
  | put item =>
    simp only [prepareWrite, ClientWrite.operation, ClientWrite.documents] at refused
    simp only [perform, put, refused, store_identified, and_self]
  | update filter change =>
    simp only [prepareWrite, ClientWrite.operation, ClientWrite.documents] at refused
    by_cases replacement : ClientWrite.isReplacement change = true
    · rw [if_pos replacement] at refused
      rw [ClientWrite.isReplacement] at replacement
      simp only [perform, update, replacement, if_true, refused, and_self]
    · rw [if_neg replacement] at refused
      rw [ClientWrite.isReplacement] at replacement
      simp only [perform, update, replacement, if_false, refused, and_self, Bool.false_eq_true]
  | delete filter =>
    simp only [prepareWrite, ClientWrite.operation, ClientWrite.documents] at refused
    simp only [perform, delete, refused, and_self]

/-- The answer of a write: the failure of the store, or the item that is selected from its answer. -/
def answer (p : Prepared) (select : ItemOutput → Option Item) :
    Except StoreError ItemOutput → Except ClientError (Option (Fields Value))
  | .error cause => .error (.store p.operation cause)
  | .ok output => decoded (select output)

/-- Sending a request changes the store as its call does, and answers what the call answers. -/
theorem write_of_call (t : TableClient) (s : Session) {p : Prepared}
    {send : Store → TypedRequest → Except StoreError (Store × ItemOutput)}
    (sends : s.store.perform p.call = s.store.settle (send s.store p.input))
    (select : ItemOutput → Option Item) :
    (t.write s p send select).1.store = (s.store.perform p.call).1 ∧
      (t.write s p send select).2 = answer p select (s.store.perform p.call).2 := by
  rw [sends, write]
  cases done : send s.store p.input with
  | error cause => simp [Session.note, done, Store.settle, answer]
  | ok result => simp [Session.note, done, Store.settle, answer]

/-- A prepared call is one call of the store, whose answer is read afterwards. -/
theorem perform_of_prepared {p : Prepared} (prepared : t.prepareWrite s options w = .ok p) :
    (t.perform s options w).1.store = (s.store.perform p.call).1 ∧
      (t.perform s options w).2 =
        answer p (fun output => w.answer? p output) (s.store.perform p.call).2 := by
  have operation := operation_of_prepare prepared
  cases w with
  | put item =>
    have sends : ∀ store : Store, store.perform p.call = store.settle (store.put p.input) := by
      intro store
      rw [Prepared.call, operation]
      rfl
    have written := write_of_call t (t.identified s item).1 (sends _)
      fun output => (ClientWrite.put item).answer? p output
    rw [store_identified] at written
    simp only [prepareWrite, ClientWrite.operation, ClientWrite.documents] at prepared
    simp only [perform, put, prepared]
    exact written
  | update filter change =>
    simp only [prepareWrite, ClientWrite.operation, ClientWrite.documents] at prepared operation
    by_cases replacement : ClientWrite.isReplacement change = true
    · rw [if_pos replacement] at prepared operation
      have sends : s.store.perform p.call = s.store.settle (s.store.put p.input) := by
        rw [Prepared.call, operation]
        rfl
      rw [ClientWrite.isReplacement] at replacement
      simp only [perform, update, replacement, if_true, prepared]
      exact write_of_call t s sends _
    · rw [if_neg replacement] at prepared operation
      have sends : s.store.perform p.call = s.store.settle (s.store.update p.input) := by
        rw [Prepared.call, operation]
        rfl
      rw [ClientWrite.isReplacement] at replacement
      simp only [perform, update, replacement, if_false, prepared, Bool.false_eq_true]
      exact write_of_call t s sends _
  | delete filter =>
    have sends : s.store.perform p.call = s.store.settle (s.store.delete p.input) := by
      rw [Prepared.call, operation]
      rfl
    simp only [prepareWrite, ClientWrite.operation, ClientWrite.documents] at prepared
    simp only [perform, delete, prepared]
    exact write_of_call t s sends _

/-! ## Stores after calls -/

/-- A put without options stores the item of its document, and then answers with it. -/
theorem put_of_encode {schema table : TableSchema} {name : String} {doc : Document} {item : Item}
    {slot : Slot} {form : StoredItem} (shares : schema.SharesKeys table)
    (defined : schema.hash.isDefined = true) (registered : s.store.table (some name) = .ok table)
    (encoded : ((ofTable schema name).identified s doc).2.encode = .ok item)
    (addressed : table.slot? item = some slot) (stored : item.stored = .ok form)
    (free : Store.reservedStart.isPrefixOf slot.place = false) :
    ((ofTable schema name).perform s [] (.put doc)).2 = decoded (some item) ∧
      ((ofTable schema name).perform s [] (.put doc)).1.store.load slot.place = some item := by
  obtain ⟨part, addressedBySchema⟩ : ∃ slot, schema.slot? item = some slot :=
    TableSchema.exists_slot?_iff.mpr fun k member =>
      TableSchema.exists_slot?_iff.mp ⟨slot, addressed⟩ k (shares.subset k member)
  obtain ⟨key, keyed⟩ := TableSchema.extractKey_of_slot? addressedBySchema
  obtain ⟨request, build, attributes, prepared⟩ := prepare_insert defined encoded keyed
  have built : Request.Built schema (Request.ofTable name) _ _ _ _ := Request.built_of_build build
  have named : s.store.table (TypedRequest.ofPlain request).tableName? = .ok table := by
    rw [built.tableName]
    exact registered
  have unconditional : (TypedRequest.ofPlain request).condition? = none :=
    built.text?_other (by decide) (by decide)
  obtain ⟨after, output, done, loaded⟩ := Store.exists_put (s := s.store) (r := .ofPlain request) attributes
    named addressed stored unconditional free
  have writes : (ofTable schema name).prepareWrite s [] (.put doc) =
      .ok ⟨.insert, request, .ofPlain request⟩ := prepared
  obtain ⟨store, answered⟩ := perform_of_prepared writes
  have call : Prepared.call ⟨.insert, request, .ofPlain request⟩ = .put (.ofPlain request) := rfl
  rw [call, Store.perform, done] at store answered
  rw [store, answered]
  refine ⟨?_, loaded⟩
  rw [Store.settle]
  rw [answer, ClientWrite.answer?, attributes]

/-- A call of a client leaves the store as it was, or as one call of the store leaves it. -/
theorem store_perform_cases (t : TableClient) (s : Session) (options : List RequestOption)
    (w : ClientWrite) : (t.perform s options w).1.store = s.store ∨
      ∃ call, (t.perform s options w).1.store = (s.store.perform call).1 := by
  cases prepared : t.prepareWrite s options w with
  | error cause => exact .inl (perform_of_refused prepared).1
  | ok p => exact .inr ⟨p.call, (perform_of_prepared prepared).1⟩

theorem sound_perform (sound : s.store.Sound) : (t.perform s options w).1.store.Sound := by
  rcases store_perform_cases t s options w with same | ⟨call, same⟩
  · rw [same]
    exact sound
  · rw [same]
    exact sound.perform call

theorem tables_perform : (t.perform s options w).1.store.tables = s.store.tables := by
  rcases store_perform_cases t s options w with same | ⟨call, same⟩
  · rw [same]
  · rw [same, Store.tables_perform]

/-! ## Connecting -/

/-- A client that is connected to a table starts its requests from the name of the table, and has the
table's keys. -/
theorem connect_eq_ok {store : Store} {name : String} {client : TableClient} {table : TableSchema}
    (connected : connect store name = .ok client) (registered : store.table (some name) = .ok table)
    (defined : table.hash.isDefined = true) :
    ∃ schema, client = ofTable schema name ∧ schema.hash = table.hash ∧ schema.SharesKeys table := by
  obtain ⟨description, described, connected⟩ := Outcome.ok_of_bind connected
  obtain ⟨schema, read, connected⟩ := Outcome.ok_of_bind connected
  obtain ⟨_, _, connected⟩ := Outcome.ok_of_bind connected
  cases connected
  replace described := Outcome.ok_of_mapError described
  rw [Store.describe, registered] at described
  cases described
  exact ⟨schema, rfl, TableSchema.sharesKeys_of_description defined (Outcome.ok_of_mapError read)⟩

end TableClient

end DocTable
