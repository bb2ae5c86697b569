import DocTable.Proofs.Attribute.Readable
import DocTable.Proofs.Client.GuardedWrites

/-!
# Writes that fail

A call of a client that writes can fail before the store is asked, in the store, or when the answer is
decoded.  The first two leave the store as it was, but an answer is decoded only after the store has
changed.  So a failed call has changed nothing unless the item that it answers with cannot be decoded
(`TableClient.failed_write_with_effect_iff`).

A put answers with the item itself, and other calls answer with what the caller asks for, by default with
nothing.  An item can hold a number that no double can hold: it is stored, and the call fails
(`TableClient.put_fails_with_effect`).
-/

namespace DocTable

set_option autoImplicit false

namespace Store

/-- A write that is not asked for values answers without an item. -/
theorem Accepts.item?_eq_none {s after : Store} {t : TableSchema} {slot : Slot} {call : ItemCall}
    {new? : Option Item} {output : ItemOutput} (accepted : Accepts s t slot call new? after output)
    (unasked : call.request.returnValues = "") : output.item? = none := by
  cases accepted <;> rw [ItemCall.request] at unasked <;> simp [unasked, updateAnswer]

end Store

namespace TableClient

/-- The item that a call answers with, if it comes that far. -/
def answered? (t : TableClient) (s : Session) (options : List RequestOption) (w : ClientWrite) :
    Option Item :=
  match t.prepareWrite s options w with
  | .error _ => none
  | .ok p => match (s.store.perform p.call).2 with
    | .error _ => none
    | .ok output => w.answer? p output

variable {t : TableClient} {s : Session} {options : List RequestOption} {w : ClientWrite}

/-- How a call ends: refused before the store is asked or by the store, which leaves the store as it was,
or answered with what the store gave it to answer with. -/
theorem perform_cases (t : TableClient) (s : Session) (options : List RequestOption)
    (w : ClientWrite) :
    ((t.perform s options w).1.store = s.store ∧ t.answered? s options w = none) ∨
      (t.perform s options w).2 = decoded (t.answered? s options w) := by
  rw [answered?]
  cases prepared : t.prepareWrite s options w with
  | error cause => exact .inl ⟨(perform_of_refused prepared).1, rfl⟩
  | ok p =>
    obtain ⟨store, answered⟩ := perform_of_prepared prepared
    dsimp only
    cases done : (s.store.perform p.call).2 with
    | error cause => exact .inl ⟨store.trans (Store.perform_error done), rfl⟩
    | ok output =>
      rw [done] at answered
      exact .inr answered

theorem decoded_eq_error_iff {item? : Option Item} :
    (∃ e, decoded item? = .error e) ↔ ∃ item cause, item? = some item ∧ item.decode = .error cause := by
  cases item? with
  | none => simp [decoded]
  | some item => cases read : item.decode <;> simp [decoded, read, Except.map, Except.mapError]

/-- A call whose item cannot be decoded fails. -/
theorem error_of_undecodable {item : Item} {cause : DecodeError}
    (answered : t.answered? s options w = some item) (undecodable : item.decode = .error cause) :
    ∃ e, (t.perform s options w).2 = .error e := by
  rcases t.perform_cases s options w with ⟨_, unanswered⟩ | result
  · rw [answered] at unanswered
    cases unanswered
  · rw [result]
    exact decoded_eq_error_iff.mpr ⟨item, cause, answered, undecodable⟩

/-- A failed call leaves the store as it was, or the item that it answers with cannot be decoded. -/
theorem store_of_error {e : ClientError} (failed : (t.perform s options w).2 = .error e) :
    (t.perform s options w).1.store = s.store ∨
      ∃ item cause, t.answered? s options w = some item ∧ item.decode = .error cause := by
  rcases t.perform_cases s options w with ⟨unchanged, _⟩ | result
  · exact .inl unchanged
  · rw [result] at failed
    exact .inr (decoded_eq_error_iff.mp ⟨e, failed⟩)

/-- A failed call that answers with a readable item, or with none, leaves the store as it was. -/
theorem store_of_readable (readable : ∀ item, t.answered? s options w = some item →
    AttributeValue.fieldsReadable item = true) {e : ClientError}
    (failed : (t.perform s options w).2 = .error e) : (t.perform s options w).1.store = s.store := by
  rcases store_of_error failed with unchanged | ⟨item, cause, answered, undecodable⟩
  · exact unchanged
  · obtain ⟨values, decoded⟩ := Item.exists_decode (readable item answered)
    rw [decoded] at undecodable
    cases undecodable

/-- A put answers with the item of its document. -/
theorem answered?_put {doc : Document} {item : Item}
    (answered : t.answered? s options (.put doc) = some item) :
    (t.identified s doc).2.encode = .ok item := by
  rw [answered?] at answered
  split at answered
  · cases answered
  · rename_i p prepared
    split at answered
    · cases answered
    · obtain ⟨start, build⟩ := build_of_prepare prepared
      obtain ⟨found, encoded, attributes⟩ := (Request.built_of_build build).attributes_item.1 rfl
      rw [ClientWrite.answer?, attributes] at answered
      cases answered
      exact encoded

/-- Without options, only a put answers with an item. -/
theorem answered?_of_default {schema : TableSchema} {name : String} (noPut : ∀ doc, w ≠ .put doc) :
    (ofTable schema name).answered? s [] w = none := by
  rw [answered?]
  cases prepared : (ofTable schema name).prepareWrite s [] w with
  | error cause => rfl
  | ok p =>
    obtain ⟨request, _, same⟩ := built_of_prepare prepared
    have unasked : p.call.request.returnValues = "" := by
      rw [p.request_call, same]
      rfl
    dsimp only
    cases done : (s.store.perform p.call).2 with
    | error cause => rfl
    | ok output =>
      obtain ⟨t, slot, new?, accepted⟩ := Store.accepts_of_perform p.isWrite_call done
      cases w with
      | put doc => exact absurd rfl (noPut doc)
      | update filter change => exact accepted.item?_eq_none unasked
      | delete filter => exact accepted.item?_eq_none unasked

/-- **A failed write changes nothing, unless it answers with an item that cannot be decoded.**  For any
call of a client that writes, with any documents and options: a call that changes the store fails exactly if
the item that it answers with cannot be decoded.  A put whose document is encoded to an item with readable
numbers therefore fails without effect, and so do an update and a delete of a client without parameters and
options of its own, since they answer with no item. -/
theorem failed_write_with_effect_iff (s : Session) (w : ClientWrite) :
    (∀ (t : TableClient) (options : List RequestOption), (t.perform s options w).1.store ≠ s.store →
      ((∃ e, (t.perform s options w).2 = .error e) ↔
        ∃ item cause, t.answered? s options w = some item ∧ item.decode = .error cause)) ∧
    (∀ (t : TableClient) (options : List RequestOption) (doc : Document), w = .put doc →
      (∀ item, (t.identified s doc).2.encode = .ok item → AttributeValue.fieldsReadable item = true) →
      ∀ e, (t.perform s options w).2 = .error e → (t.perform s options w).1.store = s.store) ∧
    ∀ (schema : TableSchema) (name : String), (∀ doc, w ≠ .put doc) →
      ∀ e, ((ofTable schema name).perform s [] w).2 = .error e →
        ((ofTable schema name).perform s [] w).1.store = s.store := by
  refine ⟨fun t options changed => ⟨?_, ?_⟩, ?_, ?_⟩
  · rintro ⟨e, failed⟩
    exact (store_of_error failed).resolve_left changed
  · rintro ⟨item, cause, answered, undecodable⟩
    exact error_of_undecodable answered undecodable
  · rintro t options doc rfl readable e failed
    exact store_of_readable (fun item answered => readable item (answered?_put answered)) failed
  · intro schema name noPut e failed
    refine store_of_readable (fun item answered => ?_) failed
    rw [answered?_of_default noPut] at answered
    cases answered

/-- The delete of a user who is not there fails, and the store stays as it was. -/
theorem failed_write_of_absent_user :
    let users : TableSchema := ⟨"users", ⟨"id", "S"⟩, .none, []⟩
    let ann : Item := [("id", .s "ann")]
    let calls : List ItemCall := [.put { tableName? := some "users", item? := some ann }]
    let s : Session := { store := (⟨[("users", users)], []⟩ : Store).run calls, source := fun _ => [] }
    ∃ e, ((ofTable users "users").perform s [] (.delete [("id", .text "bob")])).2 = .error e ∧
      ((ofTable users "users").perform s [] (.delete [("id", .text "bob")])).1.store = s.store := by
  intro users ann calls s
  obtain ⟨e, failed⟩ :
      ∃ e, ((ofTable users "users").perform s [] (.delete [("id", .text "bob")])).2 = .error e :=
    ⟨_, rfl⟩
  have unchanged := (failed_write_with_effect_iff s (.delete [("id", .text "bob")])).2.2 users "users"
    (by simp) e failed
  exact ⟨e, failed, unchanged⟩

/-- A table of users, without users. -/
def noUsers : Session where
  store := ⟨[("users", ⟨"users", ⟨"id", "S"⟩, .none, []⟩)], []⟩
  source := fun _ => []

/-- The put of a user with a number that is encoded but cannot be decoded fails, with the user stored. -/
theorem put_of_unreadable {text : String} {cause : DecodeError}
    (plain : Encode.plainDecimal text = .ok text) (unreadable : Decode.number text = .error cause) :
    ∃ client, connect noUsers.store "users" = .ok client ∧
      (∃ e, (client.perform noUsers [] (.put [("id", .text "ann"), ("n", .numeral text)])).2 = .error e) ∧
      (client.perform noUsers [] (.put [("id", .text "ann"), ("n", .numeral text)])).1.store.load
        (Slot.place ⟨"users", .text "ann", none⟩) = some [("id", .s "ann"), ("n", .n text)] := by
  let users : TableSchema := ⟨"users", ⟨"id", "S"⟩, .none, []⟩
  let doc : Document := [("id", .text "ann"), ("n", .numeral text)]
  let item : Item := [("id", .s "ann"), ("n", .n text)]
  have encoded : ((ofTable users "users").identified noUsers doc).2.encode = .ok item := by
    change doc.encode = .ok item
    simp only [doc, Document.encode, Document.encodeFields, Encode.value, plain, bind, Except.bind, pure,
      Except.pure]
    rfl
  have shares : users.SharesKeys users := ⟨fun _ member => member, fun k member => ⟨k, member, rfl⟩⟩
  have undecodable : item.decode = .error (.named "n" cause) := by
    simp only [item, Item.decode, Decode.fieldValues, Decode.value, unreadable, bind, Except.bind]
  have registered : noUsers.store.table (some "users") = .ok users := rfl
  have addressed : users.slot? item = some ⟨"users", .text "ann", none⟩ := rfl
  obtain ⟨result, stored⟩ := put_of_encode shares rfl registered encoded addressed rfl (by decide)
  refine ⟨ofTable users "users", rfl, ?_, stored⟩
  rw [result]
  exact decoded_eq_error_iff.mpr ⟨item, _, rfl, undecodable⟩

/-- A number of 309 digits is larger than every double: the put of a user with it fails, but there is a user
afterwards. -/
theorem put_fails_with_effect :
    let large : String := String.ofList ('2' :: List.replicate 308 '0')
    let call : ClientWrite := .put [("id", .text "ann"), ("n", .numeral large)]
    let place : Bytes := Slot.place ⟨"users", .text "ann", none⟩
    ∃ client, Store.new [some ⟨"users", ⟨"id", "S"⟩, .none, []⟩] = .ok noUsers.store ∧
      connect noUsers.store "users" = .ok client ∧
      (∃ e, (client.perform noUsers [] call).2 = .error e) ∧ noUsers.store.load place = none ∧
      (client.perform noUsers [] call).1.store.load place =
        some [("id", .s "ann"), ("n", .n large)] := by
  intro large call place
  have digits : large.toList = '2' :: List.replicate 308 '0' := String.toList_ofList
  have plain : Encode.plainDecimal large = .ok large := by
    refine Encode.plainDecimal_of_digits (digits ▸ List.cons_ne_nil _ _) fun c member => ?_
    rw [digits, List.mem_cons, List.mem_replicate] at member
    rcases member with rfl | ⟨_, rfl⟩ <;> decide
  obtain ⟨client, connected, failed, stored⟩ := put_of_unreadable plain (Decode.number_of_large digits)
  exact ⟨client, rfl, connected, failed, rfl, stored⟩

end TableClient

end DocTable
