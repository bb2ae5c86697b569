import DocTable.Proofs.Client.Calls

/-!
# Writes that their filter guards

A store creates an item that is not there.  A delete and an update through a client do not: the
request carries the filter as a condition, a condition is tested on an item without attributes where
there is no item, and no filter with fields selects that.  So a call changes the store only where an
item was that the filter selects, and only this one entry (`TableClient.guarded_writes`).

Which entry that is, is told by the filter for a delete and for an update with directives
(`TableSchema.Tells`), and by the new item for a replacement (`ClientWrite.Addresses`).
-/

namespace DocTable

set_option autoImplicit false

/-! ## Keys that a filter tells -/

/-- The value that the first field of a name asks to be equal to. -/
def Document.told? (d : Document) (name : String) : Option AttributeValue :=
  match d.get? name with
  | none => none
  | some raw =>
    if (Resolved.ofValue raw).isEquality then (Resolved.ofValue raw).operand.encode.toOption else none

/-- A filter tells the key of an item: for every key of the table its first field of the key's name asks
for equality with a value of the key's kind. -/
def TableSchema.Tells (t : TableSchema) (filter : Document) (key : Item) : Prop :=
  ∀ k ∈ t.keys, ∃ value, filter.told? k.name = some value ∧ k.check value = .ok () ∧
    Keyed.lookup k.name key = some value

namespace TableSchema

variable {t schema : TableSchema} {d : Document} {key : Item}

theorem keyValue_eq_ok_iff {k : KeyDefinition} {value : AttributeValue} :
    t.keyValue d k = .ok value ↔ d.told? k.name = some value ∧ k.check value = .ok () := by
  rw [keyValue, Document.told?]
  cases d.get? k.name with
  | none => simp
  | some raw =>
    by_cases equality : (Resolved.ofValue raw).isEquality = true
    · simp only [equality, if_true]
      cases (Resolved.ofValue raw).operand.encode with
      | error cause => simp [Except.toOption]
      | ok found =>
        cases checked : k.check found with
        | error cause =>
          simp only [checked, Except.toOption, Option.some.injEq, reduceCtorEq, false_iff, not_and]
          rintro rfl
          simp [checked]
        | ok _ =>
          simp only [checked, Except.toOption, Option.some.injEq, Except.ok.injEq]
          constructor
          · rintro rfl
            exact ⟨rfl, checked⟩
          · exact fun told => told.1
    · simp [equality]

/-- A key that was read from a filter has what the filter tells of every key attribute. -/
theorem told_of_keyValues {keys : List KeyDefinition} (made : t.keyValues d keys = .ok key) :
    ∀ k ∈ keys, ∃ value, d.told? k.name = some value ∧ k.check value = .ok () ∧
      Keyed.lookup k.name key = some value := by
  induction keys generalizing key with
  | nil => exact fun _ member => absurd member List.not_mem_nil
  | cons first rest ih =>
    intro k member
    obtain ⟨value, read, made⟩ := Outcome.ok_of_bind made
    obtain ⟨others, madeRest, made⟩ := Outcome.ok_of_bind made
    cases made
    obtain ⟨told, checked⟩ := keyValue_eq_ok_iff.mp read
    rcases List.mem_cons.mp member with rfl | there
    · exact ⟨value, told, checked, Keyed.lookup_insert_self _ _ _⟩
    · obtain ⟨other, toldOther, checkedOther, found⟩ := ih madeRest k there
      refine ⟨other, toldOther, checkedOther, ?_⟩
      rw [Keyed.lookup_insert]
      split
      · -- both keys have one name, so the filter tells the same of them
        rename_i same
        rw [same, toldOther] at told
        rw [← Option.some.inj told]
      · exact found

theorem exists_keyValues {keys : List KeyDefinition}
    (told : ∀ k ∈ keys, ∃ value, d.told? k.name = some value ∧ k.check value = .ok ()) :
    ∃ key, t.keyValues d keys = .ok key := by
  induction keys with
  | nil => exact ⟨[], rfl⟩
  | cons first rest ih =>
    obtain ⟨value, read⟩ := told first List.mem_cons_self
    obtain ⟨key, made⟩ := ih fun k member => told k (List.mem_cons_of_mem _ member)
    refine ⟨Keyed.insert first.name value key, ?_⟩
    rw [keyValues, keyValue_eq_ok_iff.mpr read, made]
    rfl

theorem ne_nil_of_keyOf (made : schema.keyOf d = .ok key) : d ≠ [] := by
  rintro rfl
  obtain ⟨value, told, _⟩ := told_of_keyValues made _ schema.hash_mem_keys
  cases told

/-- A key that was read for a schema with a table's keys is told by the filter, if it has a slot. -/
theorem SharesKeys.tells (shares : schema.SharesKeys t) (made : schema.keyOf d = .ok key) {slot : Slot}
    (addressed : t.slot? key = some slot) : t.Tells d key := by
  intro k member
  obtain ⟨other, inSchema, same⟩ := shares.named k member
  obtain ⟨value, told, _, found⟩ := told_of_keyValues made other inSchema
  rw [same] at told found
  obtain ⟨part, isPart⟩ := exists_slot?_iff.mp ⟨slot, addressed⟩ k member
  have checked := (KeyDefinition.part?_eq_some_iff.mp isPart).1
  rw [keyAttribute, found, Option.getD_some] at checked
  exact ⟨value, told, checked, found⟩

/-- A filter that tells a key of a table is read for a schema with the table's keys, and what is read
has the slot of the key. -/
theorem SharesKeys.keyOf (shares : schema.SharesKeys t) (tells : t.Tells d key) :
    ∃ made, schema.keyOf d = .ok made ∧ t.slot? made = t.slot? key := by
  have told : ∀ k ∈ schema.keys, ∃ value, d.told? k.name = some value ∧ k.check value = .ok () := by
    intro k member
    obtain ⟨value, told, checked, _⟩ := tells k (shares.subset k member)
    exact ⟨value, told, checked⟩
  obtain ⟨made, read⟩ := exists_keyValues told
  refine ⟨made, read, slot?_congr fun k member => ?_⟩
  obtain ⟨value, toldK, _, found⟩ := tells k member
  obtain ⟨other, inSchema, same⟩ := shares.named k member
  obtain ⟨valueMade, toldMade, _, foundMade⟩ := told_of_keyValues read other inSchema
  rw [same] at toldMade foundMade
  rw [foundMade, found, ← toldMade, toldK]

end TableSchema

/-! ## Conditions of plain requests -/

namespace Request

variable {t : TableSchema} {name : String} {op : Operation} {d extra : Document} {request : Request}

/-- A request accepts the items that its filter selects. -/
theorem checkCondition_of_build (built : Request.build op t (ofTable name) d extra = .ok request)
    (takes : op.conditionParameter? = some "ConditionExpression") (nonempty : d ≠ []) (old : Item) :
    Store.checkCondition (.ofPlain request) old =
      if d.selects old then .ok () else .error .conditionFailed := by
  obtain ⟨text, terms, given, parsed, reads⟩ := Built.condition built takes nonempty
  have condition : (TypedRequest.ofPlain request).condition? = some text := given
  rw [Store.checkCondition, Condition.eval.eq_def, condition]
  simp only [parsed, bind, Except.bind, pure, Except.pure, Document.allHold_eq_selects reads]
  cases d.selects old <;> rfl

/-- Where a request is accepted there is an item, and its filter selects it. -/
theorem selects_of_checkCondition (built : Request.build op t (ofTable name) d extra = .ok request)
    (takes : op.conditionParameter? = some "ConditionExpression") (nonempty : d ≠ [])
    {old? : Option Item}
    (accepted : Store.checkCondition (.ofPlain request) (old?.getD []) = .ok ()) :
    ∃ item, old? = some item ∧ d.selects item = true := by
  rw [checkCondition_of_build built takes nonempty] at accepted
  split at accepted
  · rename_i selected
    cases old? with
    | none =>
      rw [Option.getD_none, Document.selects_nil_item nonempty] at selected
      cases selected
    | some item => exact ⟨item, rfl, selected⟩
  · cases accepted

end Request

/-! ## What a write changes -/

namespace Store

/-- The tables and all entries but the one of a slot are the same. -/
structure ChangesOnly (before after : Store) (slot : Slot) : Prop where
  tables : after.tables = before.tables
  elsewhere : ∀ place, place ≠ slot.place → after.load place = before.load place

namespace Accepts

variable {s after : Store} {t : TableSchema} {slot : Slot} {call : ItemCall} {new? : Option Item}
  {output : ItemOutput}

theorem changesOnly (accepted : Accepts s t slot call new? after output)
    (ascending : Keyed.Ascending s.entries) : ChangesOnly s after slot :=
  ⟨accepted.tables_eq, fun place other => by
    rw [accepted.load_eq ascending, if_neg (Ne.symm other)]⟩

theorem table_eq (accepted : Accepts s t slot call new? after output) :
    s.table call.request.tableName? = .ok t := by
  cases accepted <;> assumption

theorem condition_eq (accepted : Accepts s t slot call new? after output) :
    checkCondition call.request ((s.load slot.place).getD []) = .ok () := by
  cases accepted <;> assumption

/-- A put addresses the slot of its item, any other write the slot of its key. -/
theorem addressed_eq (accepted : Accepts s t slot call new? after output) :
    (∀ r item, call = .put r → r.item? = some item → t.slot? item = some slot) ∧
    (∀ r, call = .update r ∨ call = .delete r → t.slot? (r.key?.getD []) = some slot) := by
  cases accepted with
  | put given _ addressed =>
    refine ⟨?_, by simp⟩
    rintro r item same found
    cases same
    rw [given] at found
    cases found
    exact addressed
  | update _ _ _ addressed =>
    refine ⟨by simp, ?_⟩
    rintro r (same | same)
    · cases same
      exact addressed
    · cases same
  | delete _ addressed =>
    refine ⟨by simp, ?_⟩
    rintro r (same | same)
    · cases same
    · cases same
      exact addressed

end Accepts

/-- A delete of a slot whose condition is accepted takes the slot's entry away. -/
theorem perform_delete {s : Store} {t : TableSchema} {slot : Slot} {r : TypedRequest}
    (table : s.table r.tableName? = .ok t) (addressed : t.slot? (r.key?.getD []) = some slot)
    (condition : checkCondition r ((s.load slot.place).getD []) = .ok ()) :
    s.perform (.delete r) = ({ s with entries := Keyed.erase slot.place s.entries },
      .ok ⟨if r.returnValues = "ALL_OLD" then s.load slot.place else none, r.capacity? t⟩) := by
  obtain ⟨key, extracted⟩ := TableSchema.extractKey_of_slot? addressed
  have located : address t r = .ok (key, slot.place) :=
    address_eq_ok_iff.mpr ⟨extracted, slot, addressed, rfl⟩
  simp only [perform, delete, table, located, condition, bind, Except.bind, pure, Except.pure, settle]

end Store

/-! ## Guarded calls -/

namespace ClientWrite

/-- The filter that a call is given; a put has none. -/
def filter : ClientWrite → Document
  | .put _ => []
  | .update filter _ => filter
  | .delete filter => filter

/-- Whether a call is guarded by its filter: a delete, an update with directives, or a replacement with
a filter that has fields. -/
def isGuarded : ClientWrite → Bool
  | .put _ => false
  | .update filter change => !isReplacement change || !filter.isEmpty
  | .delete _ => true

/-- The slot that a guarded call addresses: that of the key which the filter tells, or for a replacement
that of the new item. -/
inductive Addresses (t : TableSchema) (slot : Slot) : ClientWrite → Prop where
  | delete {filter : Document} {key : Item} (tells : t.Tells filter key)
      (addressed : t.slot? key = some slot) : Addresses t slot (.delete filter)
  | update {filter change : Document} {key : Item} (directives : isReplacement change = false)
      (tells : t.Tells filter key) (addressed : t.slot? key = some slot) :
      Addresses t slot (.update filter change)
  | replace {filter change : Document} {item : Item} (replacement : isReplacement change = true)
      (encoded : change.encode = .ok item) (addressed : t.slot? item = some slot) :
      Addresses t slot (.update filter change)

end ClientWrite

namespace TableClient

variable {schema t : TableSchema} {name : String} {s : Session} {w : ClientWrite}

/-- What a guarded call sends without options: a request with the filter as its condition, for the slot
that the call addresses. -/
theorem addresses_of_prepared (shares : schema.SharesKeys t) (guarded : w.isGuarded = true) {p : Prepared}
    (prepared : (ofTable schema name).prepareWrite s [] w = .ok p) :
    ∃ extra request, Request.build p.operation schema (Request.ofTable name) w.filter extra = .ok request ∧
      p.operation.conditionParameter? = some "ConditionExpression" ∧ w.filter ≠ [] ∧
      p.call.request = .ofPlain request ∧
      ∀ {store after : Store} {slot : Slot} {new? : Option Item} {output : ItemOutput},
        store.Accepts t slot p.call new? after output → w.Addresses t slot := by
  cases w with
  | put item => cases guarded
  | delete filter =>
    obtain ⟨request, build, rfl⟩ := built_of_prepare prepared
    have built := Request.built_of_build build
    obtain ⟨key, keyed, attributes⟩ := built.attributes_key (.inl rfl)
    refine ⟨_, request, build, rfl, TableSchema.ne_nil_of_keyOf keyed, rfl, fun accepted => ?_⟩
    have addressed := accepted.addressed_eq.2 _ (.inr rfl)
    rw [show (TypedRequest.ofPlain request).key? = some key from attributes] at addressed
    exact .delete (shares.tells keyed addressed) addressed
  | update filter change =>
    simp only [prepareWrite, ClientWrite.operation, ClientWrite.documents] at prepared
    by_cases replacement : ClientWrite.isReplacement change = true
    · rw [if_pos replacement] at prepared
      have nonempty : filter ≠ [] := by
        simpa [ClientWrite.isGuarded, replacement] using guarded
      obtain ⟨request, build, rfl⟩ := built_of_prepare prepared
      have built := Request.built_of_build build
      obtain ⟨item, encoded, attributes⟩ := built.attributes_item.2 rfl
      refine ⟨_, request, build, rfl, nonempty, rfl, fun accepted => ?_⟩
      exact .replace replacement encoded (accepted.addressed_eq.1 _ item rfl attributes)
    · rw [if_neg replacement] at prepared
      obtain ⟨request, build, rfl⟩ := built_of_prepare prepared
      have built := Request.built_of_build build
      obtain ⟨key, keyed, attributes⟩ := built.attributes_key (.inr rfl)
      refine ⟨_, request, build, rfl, TableSchema.ne_nil_of_keyOf keyed, rfl, fun accepted => ?_⟩
      have addressed := accepted.addressed_eq.2 _ (.inl rfl)
      rw [show (TypedRequest.ofPlain request).key? = some key from attributes] at addressed
      exact .update (Bool.eq_false_iff.mpr replacement) (shares.tells keyed addressed) addressed

theorem tableName_of_prepared {p : Prepared} {op : Operation} {d extra : Document} {request : Request}
    (build : Request.build op schema (Request.ofTable name) d extra = .ok request)
    (sends : p.call.request = .ofPlain request) : p.call.request.tableName? = some name := by
  rw [sends]
  exact (Request.built_of_build build).tableName

/-- A guarded call that changes the store changes an item that the filter selects, and nothing else. -/
theorem selects_of_changed (shares : schema.SharesKeys t) (sound : s.store.Sound)
    (table : s.store.table (some name) = .ok t) (guarded : w.isGuarded = true)
    (changed : ((ofTable schema name).perform s [] w).1.store ≠ s.store) :
    ∃ slot item, w.Addresses t slot ∧ s.store.load slot.place = some item ∧
      w.filter.selects item = true ∧
      s.store.ChangesOnly ((ofTable schema name).perform s [] w).1.store slot := by
  cases prepared : (ofTable schema name).prepareWrite s [] w with
  | error cause => exact absurd (perform_of_refused prepared).1 changed
  | ok p =>
    rw [(perform_of_prepared prepared).1] at changed ⊢
    obtain ⟨extra, request, build, takes, nonempty, sends, addresses⟩ :=
      addresses_of_prepared shares guarded prepared
    rcases Store.perform_cases s.store p.call with same | ⟨u, slot, new?, output, accepted⟩
    · exact absurd same changed
    · have named := accepted.table_eq
      rw [tableName_of_prepared build sends, table] at named
      cases named
      have condition := accepted.condition_eq
      rw [sends] at condition
      obtain ⟨item, there, selected⟩ :=
        Request.selects_of_checkCondition build takes nonempty condition
      exact ⟨slot, item, addresses accepted, there, selected, accepted.changesOnly sound.ascending⟩

/-- A delete takes away the item whose key its filter tells, if the filter selects it. -/
theorem delete_of_selects (shares : schema.SharesKeys t) (defined : schema.hash.isDefined = true)
    (sound : s.store.Sound) (table : s.store.table (some name) = .ok t) {filter : Document} {key : Item}
    {slot : Slot} {item : Item} (encodes : filter.Encodes) (tells : t.Tells filter key)
    (addressed : t.slot? key = some slot) (there : s.store.load slot.place = some item)
    (selected : filter.selects item = true) :
    ((ofTable schema name).perform s [] (.delete filter)).2 = .ok none ∧
      ((ofTable schema name).perform s [] (.delete filter)).1.store.load slot.place = none ∧
      s.store.ChangesOnly ((ofTable schema name).perform s [] (.delete filter)).1.store slot := by
  obtain ⟨made, keyed, sameSlot⟩ := shares.keyOf tells
  have nonempty := TableSchema.ne_nil_of_keyOf keyed
  obtain ⟨c, condition⟩ := Document.condition_of_encodes encodes
  obtain ⟨request, build⟩ :
      ∃ request, Request.build .delete schema (Request.ofTable name) filter [] = .ok request := by
    simp only [Request.build, Request.delete, keyed, condition, bind, Except.bind, pure, Except.pure]
    exact ⟨_, rfl⟩
  have built := Request.built_of_build build
  have stores : ¬(Operation.delete = .insert ∨ Operation.delete = .replace) := by decide
  have prepared : (ofTable schema name).prepareWrite s [] (.delete filter) =
      .ok ⟨.delete, request, .ofPlain request⟩ :=
    prepare_of_build defined stores build
  -- the request addresses the slot of the key that the filter tells
  have addressedMade : t.slot? ((TypedRequest.ofPlain request).key?.getD []) = some slot := by
    obtain ⟨found, keyedFound, attributes⟩ := built.attributes_key (.inl rfl)
    rw [keyed] at keyedFound
    cases keyedFound
    rw [show (TypedRequest.ofPlain request).key? = some made from attributes, Option.getD_some, sameSlot,
      addressed]
  have accepts : Store.checkCondition (.ofPlain request) ((s.store.load slot.place).getD []) =
      .ok () := by
    rw [there, Option.getD_some, Request.checkCondition_of_build build rfl nonempty, selected]
    rfl
  have named : s.store.table (TypedRequest.ofPlain request).tableName? = .ok t := by
    rw [built.tableName]
    exact table
  have accepted := Store.Accepts.delete named addressedMade accepts
  have done := Store.perform_delete named addressedMade accepts
  obtain ⟨store, answered⟩ := perform_of_prepared prepared
  have call : Prepared.call ⟨.delete, request, .ofPlain request⟩ = .delete (.ofPlain request) := rfl
  rw [call, done] at store answered
  rw [store, answered]
  refine ⟨rfl, ?_, accepted.changesOnly sound.ascending⟩
  rw [accepted.load_eq sound.ascending, if_pos rfl]

/-- **Writes through a client are guarded by their filter.**  Take a client that was connected to a table
of a store at any time, and call it without options after any calls of the store.  If a delete, an update
with directives or a replacement with a filter that has fields changes the store, then there was an
item at the slot that the call addresses, the filter selects it, no other entry changes, and no item is
created.  Conversely, a delete takes away the item whose key its filter tells, if the filter can be
encoded and selects the item. -/
theorem guarded_writes {schemas : List (Option TableSchema)} {start : Store}
    (opened : Store.new schemas = .ok start) {name : String} {t : TableSchema}
    (table : start.table (some name) = .ok t) (earlier : List ItemCall) {client : TableClient}
    (connected : connect (start.run earlier) name = .ok client) (calls : List ItemCall) {s : Session}
    (reached : s.store = start.run calls) :
    (∀ w : ClientWrite, w.isGuarded = true → (client.perform s [] w).1.store ≠ s.store →
      ∃ slot item, w.Addresses t slot ∧ s.store.load slot.place = some item ∧
        w.filter.selects item = true ∧ s.store.ChangesOnly (client.perform s [] w).1.store slot ∧
        ∀ place, s.store.load place = none → (client.perform s [] w).1.store.load place = none) ∧
    ∀ (filter : Document) (key : Item) (slot : Slot) (item : Item), filter.Encodes →
      t.Tells filter key → t.slot? key = some slot → s.store.load slot.place = some item →
      filter.selects item = true →
      (client.perform s [] (.delete filter)).2 = .ok none ∧
        (client.perform s [] (.delete filter)).1.store.load slot.place = none ∧
        s.store.ChangesOnly (client.perform s [] (.delete filter)).1.store slot := by
  have sound : s.store.Sound := by
    rw [reached]
    exact (Store.Sound.new opened).run calls
  have tableAfter : ∀ calls : List ItemCall, (start.run calls).table (some name) = .ok t := by
    intro calls
    rw [Store.table_congr (Store.tables_run start calls)]
    exact table
  have tableNow : s.store.table (some name) = .ok t := by
    rw [reached]
    exact tableAfter calls
  obtain ⟨registeredName, registered⟩ := Store.lookup_of_table (tableAfter calls)
  have defined := Store.isDefined_run opened calls registered
  obtain ⟨schema, rfl, sameHash, shares⟩ := connect_eq_ok connected (tableAfter earlier) defined
  refine ⟨fun w guarded changed => ?_, fun filter key slot item encodes tells addressed there selected => ?_⟩
  · obtain ⟨slot, item, addresses, there, selected, only⟩ :=
      selects_of_changed shares sound tableNow guarded changed
    refine ⟨slot, item, addresses, there, selected, only, fun place missing => ?_⟩
    have elsewhere : place ≠ slot.place := by
      rintro rfl
      rw [there] at missing
      cases missing
    rw [only.elsewhere place elsewhere]
    exact missing
  · have definedSchema : schema.hash.isDefined = true := by
      rw [sameHash]
      exact defined
    exact delete_of_selects shares definedSchema sound tableNow encodes tells addressed there selected

/-- A member of a club is deleted by the key and by a condition on the years that were paid. -/
theorem guarded_writes_of_member :
    let members : TableSchema := ⟨"members", ⟨"id", "S"⟩, .none, []⟩
    let start : Store := ⟨[("members", members)], []⟩
    let ann : Item := [("id", .s "ann"), ("paid", .s "2023")]
    let calls : List ItemCall := [.put { tableName? := some "members", item? := some ann }]
    let s : Session := { store := start.run calls, source := fun _ => [] }
    let filter : Document := [("id", .text "ann"), ("paid", .comparison .gte (.text "2020"))]
    ∃ client, connect start "members" = .ok client ∧
      (client.perform s [] (.delete filter)).2 = .ok none ∧
      (client.perform s [] (.delete filter)).1.store ≠ s.store ∧
      ∃ slot item, (ClientWrite.delete filter).Addresses members slot ∧
        s.store.load slot.place = some item ∧ filter.selects item = true := by
  intro members start ann calls s filter
  obtain ⟨client, connected⟩ : ∃ client, connect start "members" = .ok client := ⟨_, rfl⟩
  have guarded := guarded_writes (t := members) (show Store.new [some members] = .ok start from rfl) rfl
    [] connected calls (show s.store = start.run calls from rfl)
  have encodes : filter.Encodes := by
    intro field member
    simp only [filter, List.mem_cons, List.not_mem_nil, or_false] at member
    rcases member with rfl | rfl <;> exact ⟨_, rfl⟩
  have tells : members.Tells filter [("id", .s "ann")] := by
    intro k member
    cases List.mem_singleton.mp member
    exact ⟨.s "ann", rfl, rfl, rfl⟩
  have there : s.store.load (Slot.place ⟨"members", .text "ann", none⟩) = some ann := rfl
  obtain ⟨answered, gone, _⟩ :=
    guarded.2 filter [("id", .s "ann")] ⟨"members", .text "ann", none⟩ ann encodes tells rfl there (by decide)
  have changed : (client.perform s [] (.delete filter)).1.store ≠ s.store := by
    intro same
    rw [same, there] at gone
    cases gone
  obtain ⟨slot, item, addresses, found, selected, _⟩ := guarded.1 (.delete filter) rfl changed
  exact ⟨client, connected, answered, changed, slot, item, addresses, found, selected⟩

end TableClient

end DocTable
