import DocTable.Proofs.Client.FailedWrites
import DocTable.Proofs.Expression.DirectiveMeaning

/-!
# Updates by directives

An update document with directives is compiled to an expression, which the store reads back as actions.
What comes of it at the end is what the directives mean (`TableClient.directive_updates`): the item that
the filter tells and selects is replaced by what the directives make of it, and nothing else changes.  A
call that names a key attribute, or an increment of a value to which nothing can be added, changes nothing
at all, and neither does a call for an item that is not there or that the filter does not select.
-/

namespace DocTable

set_option autoImplicit false

/-! ## Keys and names of fields -/

/-- Actions that carry out directives change a key exactly if the directives name it. -/
theorem Directive.changedKey?_eq_none_iff {t : TableSchema} {given key : Item}
    {directives : List Directive} {actions : List UpdateAction} (extracted : t.extractKey given = .ok key)
    (carries : List.Forall₂ UpdateAction.CarriesOut (directives.flatMap Directive.entries) actions) :
    Store.changedKey? key actions = none ↔ ∀ k ∈ t.keys, k.name ∉ Directive.names directives := by
  constructor
  · intro kept k member named
    obtain ⟨a, inActions, path⟩ := (Directive.mem_names_iff carries).mp named
    obtain ⟨value, found, _⟩ := KeyDefinition.has_of_extract extracted k member
    rw [← KeyDefinition.lookup_extract extracted k member] at found
    exact Store.path_ne_of_changedKey? kept (Keyed.contains_iff.mpr ⟨value, found⟩) a inActions path
  · intro unnamed
    refine List.findSome?_eq_none_iff.mpr fun a member => ?_
    split
    · rename_i name path
      refine if_neg fun inKey => ?_
      obtain ⟨value, found⟩ := Keyed.contains_iff.mp inKey
      obtain ⟨k, isKey, same, _⟩ := KeyDefinition.mem_extract extracted _ (Keyed.mem_of_lookup found)
      exact unnamed k isKey ((Directive.mem_names_iff carries).mpr ⟨a, member, by rw [path, ← same]⟩)
    · rfl

/-- A filter tells one slot at most. -/
theorem TableSchema.Tells.slot?_eq {t : TableSchema} {filter : Document} {a b : Item}
    (tellsA : t.Tells filter a) (tellsB : t.Tells filter b) : t.slot? a = t.slot? b := by
  refine TableSchema.slot?_congr fun k member => ?_
  obtain ⟨value, told, _, foundA⟩ := tellsA k member
  obtain ⟨other, toldOther, _, foundB⟩ := tellsB k member
  rw [foundA, foundB, ← told, ← toldOther]

/-- A document of directives is no replacement. -/
theorem ClientWrite.isReplacement_of_directives {change : Document} {directives : List Directive}
    (read : Directive.ofDocument change = .ok directives) : isReplacement change = false := by
  cases change with
  | nil => rfl
  | cons field rest =>
    obtain ⟨key, value⟩ := field
    rw [Directive.ofDocument, Directive.collect, Directive.ofField] at read
    cases known : DirectiveKind.ofKey? key with
    | none =>
      rw [known] at read
      cases read
    | some kind =>
      have keyed : kind.key = key := by
        simpa using List.find?_some known
      have starts : Document.hasDirectives ((key, value) :: rest) = true := by
        have dollar : key.toList.head? = some '$' := by
          rw [← keyed]
          cases kind <;> decide
        simp [Document.hasDirectives, dollar]
      rw [isReplacement, starts]
      rfl

/-- A built update has its directives read back by the store. -/
theorem Request.update_of_build {schema : TableSchema} {name : String} {filter change : Document}
    {directives : List Directive} {request : Request}
    (build : Request.build .update schema (ofTable name) filter change = .ok request)
    (read : Directive.ofDocument change = .ok directives) :
    ∃ text actions, (TypedRequest.ofPlain request).update? = some text ∧
      UpdateAction.parse text (TypedRequest.ofPlain request).context = .ok actions ∧
      List.Forall₂ UpdateAction.CarriesOut (directives.flatMap Directive.entries) actions := by
  obtain ⟨found, actions, readFound, parsed, carries⟩ := parse_update build
  rw [read] at readFound
  cases readFound
  refine ⟨_, actions, Params.text?_of_text_ne_empty (UpdateAction.ne_empty_of_parse parsed), ?_, carries⟩
  rw [TypedRequest.context_ofPlain]
  exact parsed

/-- A filter that tells a key and directives that mean something can be built. -/
theorem Request.exists_build_update {schema : TableSchema} {filter change : Document} {key : Item}
    {directives : List Directive} {old new : Item} (keyed : schema.keyOf filter = .ok key)
    (encodes : filter.Encodes) (read : Directive.ofDocument change = .ok directives)
    (filled : directives.flatMap Directive.entries ≠ [])
    (meant : Directive.meaning? directives old = some new) (name : String) :
    ∃ request, Request.build .update schema (ofTable name) filter change = .ok request := by
  obtain ⟨c, condition⟩ := Document.condition_of_encodes encodes
  obtain ⟨p, text, written, nonempty⟩ := Directive.expression_of_meaning?
    (Document.written_of_condition condition).1 filled meant
  simp only [Request.build, Request.update, keyed, Request.directives, read, condition, written,
    if_neg nonempty, bind, Except.bind, pure, Except.pure]
  exact ⟨_, rfl⟩

namespace Store

/-- An update by directives has happened: the item at the slot that the filter tells was selected and is
replaced by what the directives mean for it, they name no key, and no other entry changes. -/
structure UpdatesBy (t : TableSchema) (filter : Document) (directives : List Directive)
    (before after : Store) (slot : Slot) (old new : Item) : Prop where
  told : ∃ key, t.Tells filter key ∧ t.slot? key = some slot
  unnamed : ∀ k ∈ t.keys, k.name ∉ Directive.names directives
  there : before.load slot.place = some old
  selected : filter.selects old = true
  meant : Directive.meaning? directives old = some new
  written : after.load slot.place = some new
  only : before.ChangesOnly after slot

end Store

namespace TableClient

variable {schema t : TableSchema} {name : String} {s : Session} {filter change : Document}
  {directives : List Directive}

/-- A client that was connected to a table of an opened store has the keys of the table. -/
theorem exists_schema_of_connect {schemas : List (Option TableSchema)} {start : Store}
    (opened : Store.new schemas = .ok start) (table : start.table (some name) = .ok t)
    {earlier : List ItemCall} {client : TableClient}
    (connected : connect (start.run earlier) name = .ok client) :
    ∃ schema, client = ofTable schema name ∧ schema.hash.isDefined = true ∧ schema.SharesKeys t := by
  have tableThen : (start.run earlier).table (some name) = .ok t := by
    rw [Store.table_congr (Store.tables_run start earlier)]
    exact table
  obtain ⟨registeredName, registered⟩ := Store.lookup_of_table tableThen
  have defined := Store.isDefined_run opened earlier registered
  obtain ⟨schema, same, sameHash, shares⟩ := connect_eq_ok connected tableThen defined
  refine ⟨schema, same, ?_, shares⟩
  rw [sameHash]
  exact defined

/-- What an update by directives has done if it changes the store. -/
theorem updatesBy_of_changed (shares : schema.SharesKeys t) (sound : s.store.Sound)
    (table : s.store.table (some name) = .ok t) (read : Directive.ofDocument change = .ok directives)
    (changed : ((ofTable schema name).perform s [] (.update filter change)).1.store ≠ s.store) :
    ∃ slot old new, Store.UpdatesBy t filter directives s.store
      ((ofTable schema name).perform s [] (.update filter change)).1.store slot old new := by
  have replacement := ClientWrite.isReplacement_of_directives read
  cases prepared : (ofTable schema name).prepareWrite s [] (.update filter change) with
  | error cause => exact absurd (perform_of_refused prepared).1 changed
  | ok p =>
    rw [(perform_of_prepared prepared).1] at changed ⊢
    simp only [prepareWrite, ClientWrite.operation, ClientWrite.documents, replacement,
      Bool.false_eq_true, if_false] at prepared
    obtain ⟨request, build, rfl⟩ := built_of_prepare prepared
    have call : Prepared.call ⟨.update, request, .ofPlain request⟩ = .update (.ofPlain request) := rfl
    rw [call] at changed ⊢
    rcases Store.perform_cases s.store (.update (.ofPlain request)) with
      same | ⟨u, slot, new?, output, accepted⟩
    · exact absurd same changed
    · have built := Request.built_of_build build
      obtain ⟨made, keyed, attributes⟩ := built.attributes_key (.inr rfl)
      have only := accepted.changesOnly sound.ascending
      have loaded := accepted.load_eq sound.ascending slot.place
      rw [if_pos rfl] at loaded
      generalize (s.store.perform (.update (.ofPlain request))).1 = after at accepted only loaded ⊢
      cases accepted with
      | @update _ text key new actions form given named extracted addressed parsed kept condition applied =>
        rw [built.tableName, table] at named
        cases named
        obtain ⟨written, carried, givenWritten, parsedWritten, carries⟩ :=
          Request.update_of_build build read
        rw [given] at givenWritten
        cases givenWritten
        rw [parsed] at parsedWritten
        cases parsedWritten
        rw [show (TypedRequest.ofPlain request).key? = some made from attributes, Option.getD_some]
          at addressed
        obtain ⟨old, there, selected⟩ := Request.selects_of_checkCondition build rfl
          (TableSchema.ne_nil_of_keyOf keyed) condition
        rw [there, Option.getD_some] at applied
        have meant := Directive.apply_eq_meaning? parsed carries old
        rw [applied] at meant
        exact ⟨slot, old, new, ⟨made, shares.tells keyed addressed, addressed⟩,
          (Directive.changedKey?_eq_none_iff extracted carries).mp kept, there, selected, meant.symm,
          loaded, only⟩

/-- An update by directives leaves the store as it was, unless it updates the slot that its filter tells. -/
theorem store_eq_of_not_updatesBy (shares : schema.SharesKeys t) (sound : s.store.Sound)
    (table : s.store.table (some name) = .ok t) (read : Directive.ofDocument change = .ok directives)
    {key : Item} {slot : Slot} (tells : t.Tells filter key) (addressed : t.slot? key = some slot)
    (impossible : ∀ old new, ¬Store.UpdatesBy t filter directives s.store
      ((ofTable schema name).perform s [] (.update filter change)).1.store slot old new) :
    ((ofTable schema name).perform s [] (.update filter change)).1.store = s.store := by
  by_contra changed
  obtain ⟨other, old, new, happened⟩ := updatesBy_of_changed shares sound table read changed
  obtain ⟨told, tellsToo, addressedToo⟩ := happened.told
  rw [tellsToo.slot?_eq tells, addressed] at addressedToo
  cases addressedToo
  exact impossible old new happened

/-- An update by directives does what they mean to the item that its filter tells, if the filter selects
it and the new item can be stored. -/
theorem updatesBy_of_meaning? (shares : schema.SharesKeys t) (defined : schema.hash.isDefined = true)
    (sound : s.store.Sound) (table : s.store.table (some name) = .ok t)
    (read : Directive.ofDocument change = .ok directives) {key old new : Item} {slot : Slot}
    {form : StoredItem} (encodes : filter.Encodes) (tells : t.Tells filter key)
    (addressed : t.slot? key = some slot) (there : s.store.load slot.place = some old)
    (selected : filter.selects old = true) (unnamed : ∀ k ∈ t.keys, k.name ∉ Directive.names directives)
    (filled : directives.flatMap Directive.entries ≠ [])
    (meant : Directive.meaning? directives old = some new) (stored : new.stored = .ok form)
    (free : Store.reservedStart.isPrefixOf slot.place = false) :
    ((ofTable schema name).perform s [] (.update filter change)).2 = .ok none ∧
      Store.UpdatesBy t filter directives s.store
        ((ofTable schema name).perform s [] (.update filter change)).1.store slot old new := by
  obtain ⟨made, keyed, sameSlot⟩ := shares.keyOf tells
  obtain ⟨request, build⟩ := Request.exists_build_update keyed encodes read filled meant name
  have built := Request.built_of_build build
  obtain ⟨text, actions, given, parsed, carries⟩ := Request.update_of_build build read
  have prepared : (ofTable schema name).prepareWrite s [] (.update filter change) =
      .ok ⟨.update, request, .ofPlain request⟩ := by
    simp only [prepareWrite, ClientWrite.operation, ClientWrite.documents,
      ClientWrite.isReplacement_of_directives read, Bool.false_eq_true, if_false]
    exact prepare_of_build defined (by decide) build
  have attributes : (TypedRequest.ofPlain request).key?.getD [] = made := by
    obtain ⟨found, keyedFound, attributes⟩ := built.attributes_key (.inr rfl)
    rw [keyed] at keyedFound
    cases keyedFound
    rw [show (TypedRequest.ofPlain request).key? = some made from attributes, Option.getD_some]
  have addressedMade : t.slot? ((TypedRequest.ofPlain request).key?.getD []) = some slot := by
    rw [attributes, sameSlot, addressed]
  obtain ⟨extracted, extraction⟩ := TableSchema.extractKey_of_slot? addressedMade
  have condition : Store.checkCondition (.ofPlain request) ((s.store.load slot.place).getD []) = .ok () := by
    rw [there, Option.getD_some, Request.checkCondition_of_build build rfl
      (TableSchema.ne_nil_of_keyOf keyed), selected]
    rfl
  have named : s.store.table (TypedRequest.ofPlain request).tableName? = .ok t := by
    rw [built.tableName]
    exact table
  have applied : UpdateAction.apply actions ((s.store.load slot.place).getD extracted) = .ok new := by
    have same := Directive.apply_eq_meaning? parsed carries old
    rw [meant] at same
    rw [there, Option.getD_some]
    cases done : UpdateAction.apply actions old with
    | error cause =>
      rw [done] at same
      cases same
    | ok found =>
      rw [done] at same
      cases same
      rfl
  have accepted := Store.Accepts.update given named extraction addressedMade parsed
    ((Directive.changedKey?_eq_none_iff extraction carries).mpr unnamed) condition applied stored free
  obtain ⟨store, answered⟩ := perform_of_prepared prepared
  have call : Prepared.call ⟨.update, request, .ofPlain request⟩ = .update (.ofPlain request) := rfl
  rw [call, Store.perform_of_accepts accepted] at store answered
  rw [store, answered]
  refine ⟨?_, ⟨key, tells, addressed⟩, unnamed, there, selected, meant, ?_,
    accepted.changesOnly sound.ascending⟩
  · have unasked := accepted.item?_eq_none rfl
    dsimp only at unasked
    simp only [answer, ClientWrite.answer?, unasked]
    rfl
  · rw [accepted.load_eq sound.ascending, if_pos rfl]

/-- **An update by directives means what its document says.**  Take a client that was connected to a table
of a store at any time, and call it without options after any calls of the store, with any filter and any
document of directives.  If the store changes, then the item at the slot that the filter tells is replaced
by what the directives mean for it; the attributes that they do not name, and all other entries, stay as
they were.  The store stays as it was if the directives name a key attribute, if there is no item at the
slot or the filter does not select it, and if an increment meets a value to which its operand cannot be
added.  Otherwise the call does what the directives mean, provided that the filter can be encoded, the
directives have fields and the new item can be stored. -/
theorem directive_updates {schemas : List (Option TableSchema)} {start : Store}
    (opened : Store.new schemas = .ok start) {name : String} {t : TableSchema}
    (table : start.table (some name) = .ok t) (earlier : List ItemCall) {client : TableClient}
    (connected : connect (start.run earlier) name = .ok client) (calls : List ItemCall) {s : Session}
    (reached : s.store = start.run calls) {change : Document} {directives : List Directive}
    (read : Directive.ofDocument change = .ok directives) (filter : Document) :
    let result := client.perform s [] (.update filter change)
    (result.1.store ≠ s.store →
      ∃ slot old new, Store.UpdatesBy t filter directives s.store result.1.store slot old new ∧
        ∀ other, other ∉ Directive.names directives →
          Keyed.lookup other new = Keyed.lookup other old) ∧
    ((∃ k ∈ t.keys, k.name ∈ Directive.names directives) → result.1.store = s.store) ∧
    ∀ key slot, t.Tells filter key → t.slot? key = some slot →
      (s.store.load slot.place = none → result.1.store = s.store) ∧
      ∀ old, s.store.load slot.place = some old →
        (filter.selects old = false → result.1.store = s.store) ∧
        (Directive.Clashes directives old → result.1.store = s.store) ∧
        ∀ new form, filter.Encodes → filter.selects old = true →
          (∀ k ∈ t.keys, k.name ∉ Directive.names directives) →
          directives.flatMap Directive.entries ≠ [] → Directive.meaning? directives old = some new →
          new.stored = .ok form →
          result.2 = .ok none ∧
            Store.UpdatesBy t filter directives s.store result.1.store slot old new := by
  intro result
  obtain ⟨schema, rfl, defined, shares⟩ := exists_schema_of_connect opened table connected
  have sound : s.store.Sound := by
    rw [reached]
    exact (Store.Sound.new opened).run calls
  have tableNow : s.store.table (some name) = .ok t := by
    rw [reached, Store.table_congr (Store.tables_run start calls)]
    exact table
  have happens : result.1.store ≠ s.store →
      ∃ slot old new, Store.UpdatesBy t filter directives s.store result.1.store slot old new :=
    updatesBy_of_changed shares sound tableNow read
  refine ⟨fun changed => ?_, ?_, fun key slot tells addressed => ?_⟩
  · obtain ⟨slot, old, new, happened⟩ := happens changed
    exact ⟨slot, old, new, happened, fun other unnamed =>
      Directive.lookup_meaning? unnamed happened.meant⟩
  · rintro ⟨k, member, named⟩
    by_contra changed
    obtain ⟨slot, old, new, happened⟩ := happens changed
    exact happened.unnamed k member named
  · -- what excludes an update of the told slot leaves the store as it was
    have unchanged := store_eq_of_not_updatesBy shares sound tableNow read tells addressed
    refine ⟨fun missing => unchanged fun old new happened => ?_, fun old there =>
      ⟨fun unselected => unchanged fun other new happened => ?_,
        fun clashes => unchanged fun other new happened => ?_, ?_⟩⟩
    · have found := happened.there
      rw [missing] at found
      cases found
    · have found := happened.there
      have selected := happened.selected
      rw [there] at found
      cases found
      rw [unselected] at selected
      cases selected
    · have found := happened.there
      have meant := happened.meant
      rw [there] at found
      cases found
      rw [Directive.meaning?_of_clashes clashes] at meant
      cases meant
    · intro new form encodes selected unnamed filled meant stored
      have free : Store.reservedStart.isPrefixOf slot.place = false := by
        obtain ⟨_, found, _⟩ := Option.bind_eq_some_iff.mp there
        rw [reached] at found
        exact Store.unreserved_run opened calls _ (Keyed.mem_of_lookup found)
      exact updatesBy_of_meaning? shares defined sound tableNow read encodes tells addressed there
        selected unnamed filled meant stored free

/-- A note is changed by all three directives: one field occurs twice, and the name of another has a dot in
it, which leads into no map. -/
theorem directive_updates_of_note :
    let notes : TableSchema := ⟨"notes", ⟨"id", "S"⟩, .none, []⟩
    let start : Store := ⟨[("notes", notes)], []⟩
    let old : Item :=
      [("a", .m [("b", .s "kept")]), ("draft", .bool true), ("id", .s "first"), ("reads", .n "40")]
    let new : Item :=
      [("a", .m [("b", .s "kept")]), ("a.b", .s "new"), ("id", .s "first"), ("reads", .n "42")]
    let calls : List ItemCall := [.put { tableName? := some "notes", item? := some old }]
    let s : Session := { store := start.run calls, source := fun _ => [] }
    let filter : Document := [("id", .text "first")]
    let change : Document := [("$inc", .document [("reads", .numeral "1"), ("reads", .numeral "1")]),
      ("$unset", .document [("draft", .null)]), ("$set", .document [("a.b", .text "new")])]
    ∃ client, connect start "notes" = .ok client ∧
      (client.perform s [] (.update filter change)).2 = .ok none ∧
      (client.perform s [] (.update filter change)).1.store ≠ s.store ∧
      (client.perform s [] (.update filter change)).1.store.load (Slot.place ⟨"notes", .text "first", none⟩) =
        some new := by
  intro notes start old new calls s filter change
  obtain ⟨client, connected⟩ : ∃ client, connect start "notes" = .ok client := ⟨_, rfl⟩
  have updates := directive_updates (t := notes) (show Store.new [some notes] = .ok start from rfl) rfl []
    connected calls (show s.store = start.run calls from rfl)
    (show Directive.ofDocument change = .ok _ from rfl) filter
  have encodes : filter.Encodes := by
    intro field member
    cases List.mem_singleton.mp member
    exact ⟨_, rfl⟩
  have tells : notes.Tells filter [("id", .s "first")] := by
    intro k member
    cases List.mem_singleton.mp member
    exact ⟨.s "first", rfl, rfl, rfl⟩
  have there : s.store.load (Slot.place ⟨"notes", .text "first", none⟩) = some old := rfl
  have unnamed : ∀ k ∈ notes.keys, k.name ∉ ["reads", "reads", "draft", "a.b"] := by decide
  obtain ⟨answered, happened⟩ := ((updates.2.2 [("id", .s "first")] ⟨"notes", .text "first", none⟩ tells
    rfl).2 old there).2.2 new _ encodes (by decide) unnamed (List.cons_ne_nil _ _) rfl rfl
  refine ⟨client, connected, answered, fun same => ?_, happened.written⟩
  have written := happened.written
  rw [same, there] at written
  simp [old, new] at written

end TableClient

end DocTable
