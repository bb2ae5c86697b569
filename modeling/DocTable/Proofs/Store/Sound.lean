import DocTable.Proofs.Expression.KeptAttribute
import DocTable.Proofs.Store.Calls

/-!
# What every reachable store keeps

A store that is opened empty and answers calls on single items stays `Sound`: a table is registered
under its own name, the entries are in strictly ascending order of their places, and every entry
holds an item that has its slot in a registered table, at the place of this slot (`Sound.run`).

The step that needs an argument is an update.  It starts from an item of the addressed slot, or from
the key of the request, and it keeps the attributes of the key (`Accepts.slot_of_new`).  That the item
that it starts from belongs to the addressed table follows from its place alone
(`Sound.slot_injective`).
-/

namespace DocTable.Store

set_option autoImplicit false

/-- The invariant of the stores that calls lead to. -/
structure Sound (s : Store) : Prop where
  /-- A table is registered under its own name. -/
  named : ∀ {name : String} {t : TableSchema}, Keyed.lookup name s.tables = some t → t.name = name
  ascending : Keyed.Ascending s.entries
  /-- An entry holds an item of a registered table, at the place of the item's slot. -/
  placed : ∀ entry ∈ s.entries, ∃ name t item slot, Keyed.lookup name s.tables = some t ∧
    entry.2.item? = some item ∧ t.slot? item = some slot ∧ entry.1 = slot.place

/-! ## Opening -/

/-- A registered table was one before, or is one of those to register, under its own name. -/
theorem lookup_register {before after : Fields TableSchema} {schemas : List (Option TableSchema)}
    (registered : register before schemas = .ok after) {name : String} {t : TableSchema}
    (found : Keyed.lookup name after = some t) :
    Keyed.lookup name before = some t ∨ (some t ∈ schemas ∧ t.name = name) := by
  induction schemas generalizing before with
  | nil =>
    cases registered
    exact .inl found
  | cons schema? rest ih =>
    cases schema? with
    | none => cases registered
    | some schema =>
      rw [register] at registered
      split at registered
      · rcases ih registered with earlier | ⟨member, named⟩
        · rw [Keyed.lookup_insert] at earlier
          split at earlier
          · rename_i same
            cases earlier
            exact .inr ⟨List.mem_cons_self, same⟩
          · exact .inl earlier
        · exact .inr ⟨List.mem_cons_of_mem _ member, named⟩
      · cases registered

/-- Every registered table has a hash key. -/
theorem isDefined_of_register {before after : Fields TableSchema}
    {schemas : List (Option TableSchema)} (registered : register before schemas = .ok after)
    (defined : ∀ entry ∈ before, entry.2.hash.isDefined = true) :
    ∀ entry ∈ after, entry.2.hash.isDefined = true := by
  induction schemas generalizing before with
  | nil =>
    cases registered
    exact defined
  | cons schema? rest ih =>
    cases schema? with
    | none => cases registered
    | some schema =>
      rw [register] at registered
      split at registered
      · rename_i hasHash
        refine ih registered fun entry member => ?_
        rcases Keyed.mem_insert member with here | there
        · exact here ▸ hasHash
        · exact defined entry there
      · cases registered

theorem new_eq_ok {schemas : List (Option TableSchema)} {s : Store} (opened : new schemas = .ok s) :
    register [] schemas = .ok s.tables ∧ s.entries = [] := by
  obtain ⟨tables, registered, done⟩ := Outcome.ok_of_bind opened
  cases done
  exact ⟨registered, rfl⟩

theorem Sound.new {schemas : List (Option TableSchema)} {s : Store}
    (opened : Store.new schemas = .ok s) : s.Sound := by
  obtain ⟨registered, empty⟩ := new_eq_ok opened
  refine ⟨fun found => ?_, ?_, ?_⟩
  · rcases lookup_register registered found with before | ⟨_, named⟩
    · cases before
    · exact named
  · rw [empty]
    exact List.Pairwise.nil
  · rw [empty]
    exact fun _ member => absurd member List.not_mem_nil

/-! ## Slots of a sound store -/

namespace Sound

variable {s : Store}

/-- Two slots of registered tables that have the same place are the same. -/
theorem slot_injective (sound : s.Sound) {nameT nameU : String} {t u : TableSchema} {a b : Slot}
    (registeredT : Keyed.lookup nameT s.tables = some t)
    (registeredU : Keyed.lookup nameU s.tables = some u)
    (fitsA : a.Fits t) (fitsB : b.Fits u) (same : a.place = b.place) : t = u ∧ a = b := by
  have tables : a.table = b.table := (Slot.parts_of_place_eq same).1
  have names : nameT = nameU := by
    rw [← sound.named registeredT, ← sound.named registeredU, ← fitsA.table, ← fitsB.table, tables]
  subst names
  rw [registeredT] at registeredU
  cases registeredU
  exact ⟨rfl, fitsA.place_injective fitsB same⟩

/-- What is loaded for a slot is an item of that slot. -/
theorem slot_of_load (sound : s.Sound) {name : String} {t : TableSchema} {slot : Slot} {item : Item}
    (registered : Keyed.lookup name s.tables = some t) (fits : slot.Fits t)
    (loaded : s.load slot.place = some item) : t.slot? item = some slot := by
  obtain ⟨form, found, read⟩ := Option.bind_eq_some_iff.mp loaded
  obtain ⟨nameU, u, placed, other, registeredU, readPlaced, addressed, place⟩ :=
    sound.placed _ (Keyed.mem_of_lookup found)
  obtain ⟨sameTable, sameSlot⟩ := sound.slot_injective registered registeredU fits
    (TableSchema.fits_of_slot? addressed) place
  rw [readPlaced] at read
  cases read
  rw [sameTable, sameSlot, addressed]

end Sound

/-! ## Writes keep the key -/

/-- A value of a key is no map. -/
theorem fields?_of_check {k : KeyDefinition} {value : AttributeValue}
    (checked : k.check value = .ok ()) : value.fields? = none := by
  rw [KeyDefinition.check] at checked
  split at checked
  · rename_i sameKind
    cases value with
    | m fields => cases sameKind
    | _ => rfl
  · cases checked

theorem path_ne_of_changedKey? {key : Item} {actions : List UpdateAction} {name : String}
    (kept : changedKey? key actions = none) (inKey : Keyed.contains name key = true) :
    ∀ a ∈ actions, a.path ≠ [name] := by
  intro a member path
  have unchanged := List.findSome?_eq_none_iff.mp kept a member
  simp [path, inKey] at unchanged

/-- An update of an item of a slot, or of the key of a slot, leaves an item of this slot. -/
theorem slot_of_apply {t : TableSchema} {given key item new : Item} {slot : Slot}
    {actions : List UpdateAction} (extracted : t.extractKey given = .ok key)
    (kept : changedKey? key actions = none) (addressed : t.slot? item = some slot)
    (applied : UpdateAction.apply actions item = .ok new) : t.slot? new = some slot := by
  rw [← addressed]
  refine TableSchema.slot?_congr fun k member => ?_
  obtain ⟨_, extractedItem⟩ := TableSchema.extractKey_of_slot? addressed
  obtain ⟨value, found, checked⟩ := KeyDefinition.has_of_extract extractedItem k member
  obtain ⟨other, foundGiven, _⟩ := KeyDefinition.has_of_extract extracted k member
  have inKey : Keyed.contains k.name key = true := by
    refine Keyed.contains_iff.mpr ⟨other, ?_⟩
    rw [KeyDefinition.lookup_extract extracted k member, foundGiven]
  rw [found]
  exact UpdateAction.lookup_apply found (fields?_of_check checked)
    (path_ne_of_changedKey? kept inKey) applied

/-- A write leaves an item of the slot that it addresses, if it leaves one. -/
theorem Accepts.slot_of_new {s after : Store} {t : TableSchema} {slot : Slot} {call : ItemCall}
    {new : Item} {output : ItemOutput} (sound : s.Sound)
    (accepted : Accepts s t slot call (some new) after output) : t.slot? new = some slot := by
  obtain ⟨name, registered⟩ := accepted.registered
  have fits := accepted.fits
  cases accepted with
  | put _ _ addressed => exact addressed
  | update _ _ extracted addressed _ kept _ applied =>
    refine slot_of_apply extracted kept ?_ applied
    cases loaded : s.load slot.place with
    | none => exact (TableSchema.slot?_extractKey extracted).trans addressed
    | some old => exact sound.slot_of_load registered fits loaded

/-! ## Runs -/

theorem Sound.accepts {s after : Store} {t : TableSchema} {slot : Slot} {call : ItemCall}
    {new? : Option Item} {output : ItemOutput} (sound : s.Sound)
    (accepted : Accepts s t slot call new? after output) : after.Sound := by
  have tables := accepted.tables_eq
  refine ⟨?_, accepted.ascending sound.ascending, ?_⟩
  · rw [tables]
    exact sound.named
  · rw [tables]
    obtain ⟨name, registered⟩ := accepted.registered
    -- an entry after a write is the written one, or was there before
    have written : ∀ {form : StoredItem} {new : Item}, new.stored = .ok form →
        t.slot? new = some slot → ∀ entry ∈ Keyed.insert slot.place form s.entries,
        ∃ name t item slot, Keyed.lookup name s.tables = some t ∧
          entry.2.item? = some item ∧ t.slot? item = some slot ∧ entry.1 = slot.place := by
      intro form new stored addressed entry member
      rcases Keyed.mem_insert member with here | there
      · subst here
        exact ⟨name, t, new, slot, registered, Item.item?_of_stored stored, addressed, rfl⟩
      · exact sound.placed entry there
    have addressed : ∀ new, new? = some new → t.slot? new = some slot := by
      intro new same
      subst same
      exact accepted.slot_of_new sound
    cases accepted with
    | put _ _ _ stored => exact written stored (addressed _ rfl)
    | update _ _ _ _ _ _ _ _ stored => exact written stored (addressed _ rfl)
    | delete =>
      exact fun entry member =>
        sound.placed entry ((Keyed.erase_sublist slot.place s.entries).subset member)

theorem Sound.perform {s : Store} (sound : s.Sound) (call : ItemCall) :
    (s.perform call).1.Sound := by
  rcases perform_cases s call with same | ⟨t, slot, new?, output, accepted⟩
  · rw [same]
    exact sound
  · exact sound.accepts accepted

theorem Sound.run {s : Store} (sound : s.Sound) (calls : List ItemCall) : (s.run calls).Sound := by
  induction calls generalizing s with
  | nil => exact sound
  | cons call rest ih => exact ih (sound.perform call)

/-- A call leaves no entry at a reserved place, if there was none. -/
theorem unreserved_perform {s : Store}
    (unreserved : ∀ entry ∈ s.entries, reservedStart.isPrefixOf entry.1 = false) (call : ItemCall) :
    ∀ entry ∈ (s.perform call).1.entries, reservedStart.isPrefixOf entry.1 = false := by
  rcases perform_cases s call with same | ⟨t, slot, new?, output, accepted⟩
  · rw [same]
    exact unreserved
  · have written : ∀ form : StoredItem, reservedStart.isPrefixOf slot.place = false →
        ∀ entry ∈ Keyed.insert slot.place form s.entries, reservedStart.isPrefixOf entry.1 = false := by
      intro form free entry member
      rcases Keyed.mem_insert member with rfl | there
      · exact free
      · exact unreserved entry there
    generalize (s.perform call).1 = after at accepted
    cases accepted with
    | put _ _ _ _ _ free => exact written _ free
    | update _ _ _ _ _ _ _ _ _ free => exact written _ free
    | delete => exact fun entry member =>
        unreserved entry ((Keyed.erase_sublist slot.place s.entries).subset member)

/-- No entry of a store that was opened is at a reserved place, whatever was called since. -/
theorem unreserved_run {schemas : List (Option TableSchema)} {start : Store}
    (opened : Store.new schemas = .ok start) (calls : List ItemCall) :
    ∀ entry ∈ (start.run calls).entries, reservedStart.isPrefixOf entry.1 = false := by
  have empty : ∀ entry ∈ start.entries, reservedStart.isPrefixOf entry.1 = false := by
    rw [(new_eq_ok opened).2]
    exact fun _ member => absurd member List.not_mem_nil
  clear opened
  induction calls generalizing start with
  | nil => exact empty
  | cons call rest ih => exact ih (unreserved_perform empty call)

theorem tables_perform (s : Store) (call : ItemCall) : (s.perform call).1.tables = s.tables := by
  rcases perform_cases s call with same | ⟨t, slot, new?, output, accepted⟩
  · rw [same]
  · exact accepted.tables_eq

theorem tables_run (s : Store) (calls : List ItemCall) : (s.run calls).tables = s.tables := by
  induction calls generalizing s with
  | nil => rfl
  | cons call rest ih => exact (ih _).trans (tables_perform s call)

/-- A table of a store that was opened has a hash key, whatever was called since. -/
theorem isDefined_run {schemas : List (Option TableSchema)} {start : Store}
    (opened : Store.new schemas = .ok start) (calls : List ItemCall) {name : String} {t : TableSchema}
    (registered : Keyed.lookup name (start.run calls).tables = some t) : t.hash.isDefined = true := by
  rw [tables_run] at registered
  exact isDefined_of_register (new_eq_ok opened).1 (fun _ member => absurd member List.not_mem_nil) _
    (Keyed.mem_of_lookup registered)

end DocTable.Store
