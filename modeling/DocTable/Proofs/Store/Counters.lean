import DocTable.Proofs.Expression.AddedAttribute
import DocTable.Proofs.Store.Sound
import Mathlib

/-!
# Counters

An attribute of an item is a counter for a sequence of calls if some of them are updates that add an
integer to it, and the others leave it alone: they fail, they read, they address another item, or they
update the item without naming the attribute (`Counting`).  Such updates may have conditions and change
other attributes as well.

One call takes what the counter has counted to what it has to count next (`CountedCall.Plays.counts`), so
the counter holds the exact sum of its first value and of the integers that were added, as long as it
stays within 64 bits.  In another order the same integers give the same sum, if they are still added
(`counters_exact`): an update that asks for what is stored may fail in another order
(`conditional_counter_depends_on_order`), but one that only adds, and asks for nothing, does not, whatever
reads, updates of other attributes and calls for other items are among them (`counting_of_unconditional`).
-/

namespace DocTable

set_option autoImplicit false

/-- The actions of an update. -/
def ItemCall.actions? : ItemCall → Option (List UpdateAction)
  | .update r => do
    let text ← r.update?
    (UpdateAction.parse text r.context).toOption
  | _ => none

namespace Store

/-- An attribute of the item at a slot. -/
def attribute? (s : Store) (slot : Slot) (name : String) : Option AttributeValue :=
  (s.load slot.place).bind (Keyed.lookup name)

/-- The slot that a call addresses. -/
def addressed? (s : Store) (call : ItemCall) : Option Slot := do
  let t ← (s.table call.request.tableName?).toOption
  match call with
  | .put r => t.slot? (← r.item?)
  | .update r | .delete r | .get r => t.slot? (r.key?.getD [])

/-- A call adds an integer to an attribute of the item at a slot, and succeeds. -/
structure Adds (s : Store) (slot : Slot) (name : String) (delta : Int64) (call : ItemCall) : Prop where
  addressed : s.addressed? call = some slot
  adds : ∃ actions, call.actions? = some actions ∧ UpdateAction.AddOnce name delta.toInt actions
  done : ∃ output, (s.perform call).2 = .ok output

/-- A call does not touch an attribute of the item at a slot. -/
inductive Spares (s : Store) (slot : Slot) (name : String) (call : ItemCall) : Prop where
  | fails (cause : StoreError) (failed : (s.perform call).2 = .error cause)
  | reads (read : call.isWrite = false)
  | elsewhere (other : s.addressed? call ≠ some slot)
  | beside (actions : List UpdateAction) (parsed : call.actions? = some actions)
      (untouched : ∀ a ∈ actions, a.path.head? ≠ some name)

end Store

/-- A call, and the integer that it adds to a counter if it adds one. -/
structure CountedCall where
  call : ItemCall
  delta? : Option Int64

namespace CountedCall

/-- The calls of a sequence. -/
def calls (steps : List CountedCall) : List ItemCall := steps.map CountedCall.call

/-- The integers that a sequence adds, in order. -/
def deltas (steps : List CountedCall) : List Int64 := steps.filterMap CountedCall.delta?

/-- A call does to an attribute of the item at a slot what it is counted for. -/
def Plays (s : Store) (slot : Slot) (name : String) (step : CountedCall) : Prop :=
  match step.delta? with
  | some delta => s.Adds slot name delta step.call
  | none => s.Spares slot name step.call

/-- A call that does what it is counted for whatever is stored: an update that only adds, on no condition, or
one that reads, addresses another item, or updates other attributes of the item. -/
def Unconditional (s : Store) (slot : Slot) (name : String) (step : CountedCall) : Prop :=
  match step.delta? with
  | some delta => s.addressed? step.call = some slot ∧ step.call.request.condition? = none ∧
      ∃ token, step.call.actions? = some [.increment name token delta.toInt]
  | none => step.call.isWrite = false ∨ s.addressed? step.call ≠ some slot ∨
      ∃ actions, step.call.actions? = some actions ∧ ∀ a ∈ actions, a.path.head? ≠ some name

end CountedCall

/-- Calls in order, each of which does to an attribute of the item at a slot what it is counted for. -/
def Counting (slot : Slot) (name : String) : Store → List CountedCall → Prop
  | _, [] => True
  | s, step :: rest => step.Plays s slot name ∧ Counting slot name (s.perform step.call).1 rest

/-- The exact sum of integers of 64 bits. -/
def exactSum (deltas : List Int64) : Int := (deltas.map Int64.toInt).sum

/-- An integer and all its sums with the first of some others have 64 bits. -/
def StaysInRange (first : Int) (deltas : List Int64) : Prop :=
  ∀ part, part <+: deltas →
    Int64.minValue.toInt ≤ first + exactSum part ∧ first + exactSum part ≤ Int64.maxValue.toInt

/-! ## Sums in range -/

theorem exactSum_cons (delta : Int64) (rest : List Int64) :
    exactSum (delta :: rest) = delta.toInt + exactSum rest := by
  rw [exactSum, List.map_cons, List.sum_cons, exactSum]

theorem exactSum_perm {deltas others : List Int64} (perm : others.Perm deltas) :
    exactSum others = exactSum deltas := (perm.map Int64.toInt).sum_eq

namespace StaysInRange

variable {first : Int} {delta : Int64} {deltas : List Int64}

theorem start (stays : StaysInRange first deltas) :
    Int64.minValue.toInt ≤ first ∧ first ≤ Int64.maxValue.toInt := by
  simpa [exactSum] using stays [] List.nil_prefix

theorem next (stays : StaysInRange first (delta :: deltas)) : StaysInRange (first + delta.toInt) deltas := by
  intro part isPrefix
  have longer := stays (delta :: part) ((List.prefix_cons_inj delta).mpr isPrefix)
  rw [exactSum_cons, ← Int.add_assoc] at longer
  exact longer

/-- The three numbers of an addition are within the precision of the arithmetic. -/
theorem bounds (stays : StaysInRange first (delta :: deltas)) :
    UpdateAction.AddsExactly first delta.toInt := by
  have least : Int64.minValue.toInt = -9223372036854775808 := rfl
  have greatest : Int64.maxValue.toInt = 9223372036854775807 := rfl
  have size : UInt64.size = 18446744073709551616 := rfl
  have startRange := stays.start
  have nextRange := stays.next.start
  have deltaLow := delta.le_toInt
  have deltaHigh := delta.toInt_lt
  constructor <;> omega

end StaysInRange

/-! ## Addresses -/

namespace Store

theorem Accepts.addressed? {s after : Store} {t : TableSchema} {slot : Slot} {call : ItemCall}
    {new? : Option Item} {output : ItemOutput} (accepted : Accepts s t slot call new? after output) :
    s.addressed? call = some slot := by
  cases accepted with
  | put given table addressed =>
    simp [Store.addressed?, ItemCall.request, table, given, addressed, Except.toOption]
  | update _ table _ addressed =>
    simp [Store.addressed?, ItemCall.request, table, addressed, Except.toOption]
  | delete table addressed =>
    simp [Store.addressed?, ItemCall.request, table, addressed, Except.toOption]

theorem addressed?_congr {s after : Store} (tables : after.tables = s.tables) (call : ItemCall) :
    after.addressed? call = s.addressed? call := by
  rw [Store.addressed?, Store.addressed?, table_congr tables]

theorem actions?_update {r : TypedRequest} {actions : List UpdateAction}
    (parsed : (ItemCall.update r).actions? = some actions) :
    ∃ text, r.update? = some text ∧ UpdateAction.parse text r.context = .ok actions := by
  obtain ⟨text, given, read⟩ := Option.bind_eq_some_iff.mp parsed
  exact ⟨text, given, Outcome.ok_of_toOption read⟩

end Store

/-! ## One call -/

/-- An attribute that can be counted: that of a slot of one of the tables of a store, and none of the
table's keys. -/
structure Countable (s : Store) (t : TableSchema) (slot : Slot) (name : String) : Prop where
  sound : s.Sound
  registered : ∃ tableName, Keyed.lookup tableName s.tables = some t
  fits : slot.Fits t
  nonKey : ∀ k ∈ t.keys, k.name ≠ name

section Countable

variable {s : Store} {t : TableSchema} {slot : Slot} {name : String}

theorem Countable.perform (countable : Countable s t slot name) (call : ItemCall) :
    Countable (s.perform call).1 t slot name where
  sound := countable.sound.perform call
  registered := by
    rw [Store.tables_perform]
    exact countable.registered
  fits := countable.fits
  nonKey := countable.nonKey

/-- A slot of a table is no slot of another. -/
theorem Countable.table_eq (countable : Countable s t slot name) {otherName : String} {u : TableSchema}
    (registered : Keyed.lookup otherName s.tables = some u) (fits : slot.Fits u) : t = u := by
  obtain ⟨_, registeredT⟩ := countable.registered
  exact (countable.sound.slot_injective registeredT registered countable.fits fits rfl).1

theorem Countable.lookup_key (countable : Countable s t slot name) {given key : Item}
    (extracted : t.extractKey given = .ok key) : Keyed.lookup name key = none := by
  refine Keyed.lookup_eq_none fun entry member same => ?_
  obtain ⟨k, isKey, named, _⟩ := KeyDefinition.mem_extract extracted entry member
  exact countable.nonKey k isKey (named.symm.trans same)

/-- A write that is accepted for the slot of an attribute is accepted for its table. -/
theorem Countable.accepts (countable : Countable s t slot name) {u : TableSchema} {call : ItemCall}
    {new? : Option Item} {after : Store} {output : ItemOutput}
    (accepted : Store.Accepts s u slot call new? after output) :
    Store.Accepts s t slot call new? after output := by
  obtain ⟨_, registered⟩ := accepted.registered
  rw [countable.table_eq registered accepted.fits]
  exact accepted

/-- An attribute before and after an update of its item that succeeds. -/
theorem Countable.attribute?_of_update (countable : Countable s t slot name) {call : ItemCall}
    {new? : Option Item} {after : Store} {output : ItemOutput} {actions : List UpdateAction}
    (accepted : Store.Accepts s t slot call new? after output) (parsed : call.actions? = some actions) :
    ∃ old new, Keyed.lookup name old = s.attribute? slot name ∧ UpdateAction.apply actions old = .ok new ∧
      after.attribute? slot name = Keyed.lookup name new := by
  have loaded := accepted.load_eq countable.sound.ascending slot.place
  rw [if_pos rfl] at loaded
  cases accepted with
  | put => cases parsed
  | delete => cases parsed
  | @update r text key new found form given table extracted addressed parsedHere kept condition applied =>
    obtain ⟨again, givenAgain, parsedAgain⟩ := Store.actions?_update parsed
    cases given.symm.trans givenAgain
    cases parsedHere.symm.trans parsedAgain
    refine ⟨_, new, ?_, applied, by rw [Store.attribute?, loaded, Option.bind_some]⟩
    rw [Store.attribute?]
    cases s.load slot.place with
    | some old => rfl
    | none => exact countable.lookup_key extracted

theorem Store.Adds.isWrite {delta : Int64} {call : ItemCall} (adds : s.Adds slot name delta call) :
    call.isWrite = true := by
  obtain ⟨actions, parsed, _⟩ := adds.adds
  cases call with
  | update r => rfl
  | _ => cases parsed

theorem Store.Adds.accepts {delta : Int64} {call : ItemCall} (adds : s.Adds slot name delta call) :
    ∃ u new? output, Store.Accepts s u slot call new? (s.perform call).1 output := by
  obtain ⟨output, done⟩ := adds.done
  obtain ⟨u, other, new?, accepted⟩ := Store.accepts_of_perform adds.isWrite done
  have same : other = slot := Option.some.inj (accepted.addressed?.symm.trans adds.addressed)
  subst same
  exact ⟨u, new?, output, accepted⟩

/-- An update that adds an integer to a counter leaves the sum there. -/
theorem Store.Adds.attribute?_eq (countable : Countable s t slot name) {delta : Int64} {call : ItemCall}
    {n : Int} (adds : s.Adds slot name delta call)
    (bounds : UpdateAction.AddsExactly n delta.toInt)
    (counted : AttributeValue.Counts (s.attribute? slot name) n) :
    (s.perform call).1.attribute? slot name = some (.n (toString (n + delta.toInt))) := by
  obtain ⟨actions, parsed, once⟩ := adds.adds
  obtain ⟨u, new?, output, accepted⟩ := adds.accepts
  obtain ⟨old, new, before, applied, after⟩ :=
    countable.attribute?_of_update (countable.accepts accepted) parsed
  rw [← before] at counted
  rw [after]
  exact UpdateAction.lookup_apply_addOnce once bounds counted applied

/-- A call that spares an attribute leaves it as it was. -/
theorem Store.Spares.attribute?_eq (countable : Countable s t slot name) {call : ItemCall}
    (spares : s.Spares slot name call) :
    (s.perform call).1.attribute? slot name = s.attribute? slot name := by
  rcases Store.perform_cases s call with same | ⟨u, other, new?, output, accepted⟩
  · rw [same]
  · by_cases here : other = slot
    · subst here
      cases spares with
      | fails cause failed => rw [Store.perform_error failed]
      | reads read =>
        cases call with
        | get r => rfl
        | _ => cases read
      | elsewhere different => exact absurd accepted.addressed? different
      | beside actions parsed untouched =>
        obtain ⟨old, new, before, applied, after⟩ :=
          countable.attribute?_of_update (countable.accepts accepted) parsed
        rw [after, ← before]
        exact UpdateAction.lookup_apply_of_head untouched applied
    · obtain ⟨_, registered⟩ := countable.registered
      obtain ⟨_, registeredU⟩ := accepted.registered
      have places : other.place ≠ slot.place := fun same =>
        here (countable.sound.slot_injective registeredU registered accepted.fits countable.fits same).2
      rw [Store.attribute?, accepted.load_eq countable.sound.ascending, if_neg places, Store.attribute?]

/-- A call takes what a counter has counted to what it has to count next, and the counter is there
afterwards if it was before or if the call adds to it. -/
theorem CountedCall.Plays.counts (countable : Countable s t slot name) {step : CountedCall}
    {rest : List CountedCall} {n : Int} (plays : step.Plays s slot name)
    (stays : StaysInRange n (CountedCall.deltas (step :: rest)))
    (counted : AttributeValue.Counts (s.attribute? slot name) n) :
    ∃ next, AttributeValue.Counts ((s.perform step.call).1.attribute? slot name) next ∧
      StaysInRange next (CountedCall.deltas rest) ∧
      n + exactSum (CountedCall.deltas (step :: rest)) = next + exactSum (CountedCall.deltas rest) ∧
      ((s.attribute? slot name).isSome ∨ CountedCall.deltas (step :: rest) ≠ [] →
        ((s.perform step.call).1.attribute? slot name).isSome ∨ CountedCall.deltas rest ≠ []) := by
  obtain ⟨call, delta?⟩ := step
  cases delta? with
  | none =>
    have same : (s.perform call).1.attribute? slot name = s.attribute? slot name :=
      Store.Spares.attribute?_eq countable plays
    refine ⟨n, ?_, stays, rfl, ?_⟩
    · rw [same]
      exact counted
    · rw [same]
      exact id
  | some delta =>
    have sum : (s.perform call).1.attribute? slot name = some (.n (toString (n + delta.toInt))) :=
      Store.Adds.attribute?_eq countable plays stays.bounds counted
    refine ⟨n + delta.toInt, .inl sum, stays.next, ?_, fun _ => .inl ?_⟩
    · exact (congrArg (n + ·) (exactSum_cons delta _)).trans (Int.add_assoc _ _ _).symm
    · rw [sum]
      rfl

/-! ## Sequences of calls -/

/-- A counter holds the exact sum after any sequence of calls that counts, and is there if it was before
or if a call adds to it. -/
theorem Counting.counts (countable : Countable s t slot name) {steps : List CountedCall} {n : Int}
    (counting : Counting slot name s steps) (stays : StaysInRange n (CountedCall.deltas steps))
    (counted : AttributeValue.Counts (s.attribute? slot name) n) :
    AttributeValue.Counts ((s.run (CountedCall.calls steps)).attribute? slot name)
      (n + exactSum (CountedCall.deltas steps)) ∧
    ((s.attribute? slot name).isSome ∨ CountedCall.deltas steps ≠ [] →
      ((s.run (CountedCall.calls steps)).attribute? slot name).isSome) := by
  induction steps generalizing s n with
  | nil =>
    refine ⟨?_, fun there => there.resolve_right fun added => added rfl⟩
    rw [CountedCall.deltas, List.filterMap_nil, exactSum, List.map_nil, List.sum_nil, Int.add_zero]
    exact counted
  | cons step rest ih =>
    obtain ⟨plays, later⟩ := counting
    obtain ⟨next, countedNext, staysNext, sum, thereNext⟩ := plays.counts countable stays counted
    obtain ⟨countedLast, thereLast⟩ := ih (countable.perform step.call) later staysNext countedNext
    rw [sum]
    exact ⟨countedLast, fun there => thereLast (thereNext there)⟩

/-- A counter that was added to holds the text of the exact sum. -/
theorem Counting.attribute?_eq (countable : Countable s t slot name) {steps : List CountedCall} {n : Int}
    (counting : Counting slot name s steps) (stays : StaysInRange n (CountedCall.deltas steps))
    (counted : AttributeValue.Counts (s.attribute? slot name) n) (added : CountedCall.deltas steps ≠ []) :
    (s.run (CountedCall.calls steps)).attribute? slot name =
      some (.n (toString (n + exactSum (CountedCall.deltas steps)))) := by
  obtain ⟨number | ⟨missing, _⟩, there⟩ := counting.counts countable stays counted
  · exact number
  · have isThere := there (.inr added)
    rw [missing] at isThere
    cases isThere

/-- The place of an item that was counted is not reserved. -/
theorem Counting.unreserved {steps : List CountedCall} (counting : Counting slot name s steps)
    (added : CountedCall.deltas steps ≠ []) : Store.reservedStart.isPrefixOf slot.place = false := by
  induction steps generalizing s with
  | nil => exact absurd rfl added
  | cons step rest ih =>
    obtain ⟨plays, later⟩ := counting
    obtain ⟨call, delta?⟩ := step
    cases delta? with
    | none => exact ih later added
    | some delta =>
      obtain ⟨actions, parsed, _⟩ := plays.adds
      obtain ⟨u, new?, output, accepted⟩ := plays.accepts
      dsimp only at accepted parsed
      generalize (s.perform call).1 = after at accepted
      cases accepted with
      | put => cases parsed
      | delete => cases parsed
      | update _ _ _ _ _ _ _ _ _ free => exact free

/-! ## Updates that cannot fail -/

/-- A value of a key can be stored. -/
theorem exists_stored_of_check {k : KeyDefinition} {value : AttributeValue}
    (checked : k.check value = .ok ()) : ∃ form, value.stored = .ok form := by
  rw [KeyDefinition.check] at checked
  split at checked
  · rename_i kind
    cases value with
    | s | raw | n | b => exact ⟨_, rfl⟩
    | _ => cases kind
  · cases checked

/-- The slot that an update addresses is that of its key in the table. -/
theorem Countable.slot?_of_addressed (countable : Countable s t slot name) {r : TypedRequest}
    (addressed : s.addressed? (.update r) = some slot) :
    s.table r.tableName? = .ok t ∧ t.slot? (r.key?.getD []) = some slot := by
  obtain ⟨u, found, isSlot⟩ := Option.bind_eq_some_iff.mp addressed
  have table : s.table r.tableName? = .ok u := Outcome.ok_of_toOption found
  obtain ⟨_, registered⟩ := Store.lookup_of_table table
  rw [countable.table_eq registered (TableSchema.fits_of_slot? isSlot)]
  exact ⟨table, isSlot⟩

/-- An update that only adds to a counter, on no condition, succeeds. -/
theorem Countable.adds_of_increment (countable : Countable s t slot name)
    (free : Store.reservedStart.isPrefixOf slot.place = false) {call : ItemCall} {token : String}
    {delta : Int64} {n : Int} (addressed : s.addressed? call = some slot)
    (unasked : call.request.condition? = none)
    (parsed : call.actions? = some [.increment name token delta.toInt])
    (bounds : UpdateAction.AddsExactly n delta.toInt)
    (counted : AttributeValue.Counts (s.attribute? slot name) n) : s.Adds slot name delta call := by
  refine ⟨addressed, ⟨_, parsed, [], token, [], rfl, List.forall_mem_nil _⟩, ?_⟩
  cases call with
  | update r =>
    obtain ⟨text, given, read⟩ := Store.actions?_update parsed
    obtain ⟨table, isSlot⟩ := countable.slot?_of_addressed addressed
    obtain ⟨key, extracted⟩ := TableSchema.extractKey_of_slot? isSlot
    have noKey : Keyed.lookup name key = none := countable.lookup_key extracted
    have kept : Store.changedKey? key [.increment name token delta.toInt] = none := by
      simp [Store.changedKey?, UpdateAction.increment, Keyed.contains, noKey]
    have condition : Store.checkCondition r ((s.load slot.place).getD []) = .ok () := by
      rw [Store.checkCondition, show r.condition? = none from unasked]
      rfl
    -- the update starts from an item that was stored, or from the key
    have start : AttributeValue.Counts (Keyed.lookup name ((s.load slot.place).getD key)) n ∧
        ∀ entry ∈ (s.load slot.place).getD key, ∃ form, entry.2.stored = .ok form := by
      rw [Store.attribute?] at counted
      cases loaded : s.load slot.place with
      | none =>
        rw [loaded] at counted
        refine ⟨by rw [Option.getD_none, noKey]; exact counted, fun entry member => ?_⟩
        obtain ⟨k, _, _, checked⟩ := KeyDefinition.mem_extract extracted entry member
        exact exists_stored_of_check checked
      | some item =>
        rw [loaded] at counted
        obtain ⟨form, _, readForm⟩ := Option.bind_eq_some_iff.mp loaded
        exact ⟨counted, Item.stored_of_item? readForm⟩
    have applied := UpdateAction.apply_increment token bounds start.1
    have storable : ∀ entry ∈ Keyed.insert name (.n (toString (n + delta.toInt)))
        ((s.load slot.place).getD key), ∃ form, entry.2.stored = .ok form := by
      intro entry member
      rcases Keyed.mem_insert member with rfl | there
      · exact ⟨_, rfl⟩
      · exact start.2 entry there
    obtain ⟨form, stored⟩ := Item.exists_stored storable
    exact ⟨_, congrArg Prod.snd (Store.perform_of_accepts
      (.update given table extracted isSlot read kept condition applied stored free))⟩
  | _ => cases parsed

/-- Calls that do what they are counted for whatever is stored count in whatever order they come. -/
theorem counting_of_unconditional (countable : Countable s t slot name)
    (free : Store.reservedStart.isPrefixOf slot.place = false) {steps : List CountedCall} {n : Int}
    (unconditional : ∀ step ∈ steps, step.Unconditional s slot name)
    (stays : StaysInRange n (CountedCall.deltas steps))
    (counted : AttributeValue.Counts (s.attribute? slot name) n) : Counting slot name s steps := by
  induction steps generalizing s n with
  | nil => trivial
  | cons step rest ih =>
    have plays : step.Plays s slot name := by
      have here := unconditional step List.mem_cons_self
      obtain ⟨call, delta?⟩ := step
      cases delta? with
      | none =>
        rcases here with read | other | ⟨actions, parsed, untouched⟩
        · exact .reads read
        · exact .elsewhere other
        · exact .beside actions parsed untouched
      | some delta =>
        obtain ⟨addressed, unasked, token, parsed⟩ := here
        exact countable.adds_of_increment free addressed unasked parsed stays.bounds counted
    obtain ⟨next, countedNext, staysNext, _, _⟩ := plays.counts countable stays counted
    refine ⟨plays, ih (countable.perform step.call) (fun other member => ?_) staysNext countedNext⟩
    have later := unconditional other (List.mem_cons_of_mem _ member)
    simp only [CountedCall.Unconditional, Store.addressed?_congr (Store.tables_perform s step.call)]
      at later ⊢
    exact later

end Countable

/-- **Counters are exact and do not depend on the order of what is added.**  Take any reachable store, a
slot of one of its tables, and an attribute that is no key and is missing there or holds an integer of 64
bits.  After any calls that count, at least one of which adds, the attribute is the text of the exact sum,
if all sums on the way have 64 bits.  Any permutation of these calls that counts as well and whose sums
have 64 bits leaves the same attribute.  Calls that do what they are counted for whatever is stored count in
every such permutation; an update with a condition need not (`conditional_counter_depends_on_order`). -/
theorem counters_exact {schemas : List (Option TableSchema)} {start : Store}
    (opened : Store.new schemas = .ok start) (before : List ItemCall) {tableName name : String}
    {t : TableSchema} {slot : Slot} (registered : Keyed.lookup tableName start.tables = some t)
    (fits : slot.Fits t) (nonKey : ∀ k ∈ t.keys, k.name ≠ name) {first : Int64}
    (counted : AttributeValue.Counts ((start.run before).attribute? slot name) first.toInt)
    {steps : List CountedCall} (counting : Counting slot name (start.run before) steps)
    (added : CountedCall.deltas steps ≠ [])
    (stays : StaysInRange first.toInt (CountedCall.deltas steps)) :
    let s := start.run before
    let sum := first.toInt + exactSum (CountedCall.deltas steps)
    (s.run (CountedCall.calls steps)).attribute? slot name = some (.n (toString sum)) ∧
    ∀ others, others.Perm steps → StaysInRange first.toInt (CountedCall.deltas others) →
      (Counting slot name s others →
        (s.run (CountedCall.calls others)).attribute? slot name = some (.n (toString sum))) ∧
      ((∀ step ∈ steps, step.Unconditional s slot name) → Counting slot name s others) := by
  intro s sum
  have countable : Countable s t slot name :=
    ⟨(Store.Sound.new opened).run before, ⟨tableName, by rw [Store.tables_run]; exact registered⟩, fits,
      nonKey⟩
  refine ⟨counting.attribute?_eq countable stays counted added,
    fun others perm staysOthers => ⟨fun countingOthers => ?_, fun unconditional => ?_⟩⟩
  · have permDeltas : (CountedCall.deltas others).Perm (CountedCall.deltas steps) :=
      perm.filterMap CountedCall.delta?
    have addedOthers : CountedCall.deltas others ≠ [] := fun empty =>
      added (List.nil_perm.mp (empty ▸ permDeltas))
    rw [countingOthers.attribute?_eq countable staysOthers counted addedOthers, exactSum_perm permDeltas]
  · exact counting_of_unconditional countable (counting.unreserved added)
      (fun step member => unconditional step (perm.subset member)) staysOthers counted

namespace Visits

/-- A table of pages. -/
def pages : TableSchema := ⟨"pages", ⟨"id", "S"⟩, .none, []⟩

/-- A store without pages. -/
def empty : Store := ⟨[("pages", pages)], []⟩

/-- Puts a page that was visited seven times. -/
def before : List ItemCall :=
  [.put { tableName? := some "pages", item? := some [("id", .s "home"), ("visits", .n "7")] }]

/-- The slot of the page. -/
def home : Slot := ⟨"pages", .text "home", none⟩

/-- Adds visits of the page. -/
def add (delta : Int64) : CountedCall where
  call := .update
    { tableName? := some "pages", key? := some [("id", .s "home")], update? := some "ADD visits :d"
      values? := some [(":d", .n (toString delta.toInt))] }
  delta? := some delta

/-- Puts another page. -/
def other : CountedCall where
  call := .put { tableName? := some "pages", item? := some [("id", .s "news"), ("visits", .s "many")] }
  delta? := none

/-- Additions that take the counter to both ends of its range. -/
def steps : List CountedCall := [add 9223372036854775800, other, add (-9223372036854775808)]

theorem unconditional_add (delta : Int64) : (add delta).Unconditional (empty.run before) home "visits" :=
  ⟨rfl, rfl, ":d", rfl⟩

theorem unconditional : ∀ step ∈ steps, step.Unconditional (empty.run before) home "visits" := by
  simp only [steps, List.mem_cons, List.not_mem_nil, or_false]
  rintro step (rfl | rfl | rfl)
  · exact unconditional_add _
  · exact .inr (by decide +kernel)
  · exact unconditional_add _

theorem staysInRange {first : Int} {deltas : List Int64} (sums : ∀ part ∈ deltas.inits,
      Int64.minValue.toInt ≤ first + exactSum part ∧ first + exactSum part ≤ Int64.maxValue.toInt) :
    StaysInRange first deltas :=
  fun part isPrefix => sums part ((List.mem_inits part deltas).mpr isPrefix)

end Visits

/-- Visits of a page are added up to the greatest integer of 64 bits and taken off again, and the other way
round. -/
theorem counters_exact_of_visits :
    (Visits.empty.run Visits.before).attribute? Visits.home "visits" = some (.n "7") ∧
    ((Visits.empty.run Visits.before).run (CountedCall.calls Visits.steps)).attribute? Visits.home "visits" =
      some (.n "-1") ∧
    ((Visits.empty.run Visits.before).run (CountedCall.calls Visits.steps.reverse)).attribute? Visits.home
      "visits" = some (.n "-1") := by
  have opened : Store.new [some Visits.pages] = .ok Visits.empty := rfl
  have registered : Keyed.lookup "pages" Visits.empty.tables = some Visits.pages := rfl
  have fits : Visits.home.Fits Visits.pages := ⟨rfl, rfl, rfl⟩
  have nonKey : ∀ k ∈ Visits.pages.keys, k.name ≠ "visits" := by decide
  have seven : (Visits.empty.run Visits.before).attribute? Visits.home "visits" = some (.n "7") := rfl
  have counted : AttributeValue.Counts ((Visits.empty.run Visits.before).attribute? Visits.home "visits")
      (7 : Int64).toInt := .inl rfl
  have stays : StaysInRange (7 : Int64).toInt (CountedCall.deltas Visits.steps) :=
    Visits.staysInRange (by decide)
  have counting : Counting Visits.home "visits" (Visits.empty.run Visits.before) Visits.steps := by
    refine counting_of_unconditional ⟨(Store.Sound.new opened).run _, ⟨"pages", rfl⟩, fits, nonKey⟩
      (by decide +kernel) Visits.unconditional stays counted
  have exact := counters_exact opened Visits.before registered fits nonKey counted counting (by decide) stays
  refine ⟨seven, exact.1, ?_⟩
  obtain ⟨same, counts⟩ :=
    exact.2 Visits.steps.reverse (List.reverse_perm _) (Visits.staysInRange (by decide))
  exact same (counts Visits.unconditional)

namespace Visits

/-- Puts a page that was not visited yet. -/
def fresh : List ItemCall :=
  [.put { tableName? := some "pages", item? := some [("id", .s "home"), ("visits", .n "0")] }]

/-- Adds the first five visits of the page. -/
def addFirst : CountedCall where
  call := .update
    { tableName? := some "pages", key? := some [("id", .s "home")], update? := some "ADD visits :d"
      condition? := some "visits = :z", values? := some [(":d", .n "5"), (":z", .n "0")] }
  delta? := some 5

theorem adds {s : Store} (tables : s.tables = empty.tables) {call : ItemCall} {delta : Int64}
    (addressed : empty.addressed? call = some home)
    (parsed : call.actions? = some [.increment "visits" ":d" delta.toInt])
    (done : (s.perform call).2.isOk = true) : s.Adds home "visits" delta call :=
  ⟨(Store.addressed?_congr tables call).trans addressed,
    ⟨_, parsed, [], ":d", [], rfl, List.forall_mem_nil _⟩, Outcome.ok_of_isOk done⟩

end Visits

/-- Five visits are added on the condition that there are none yet, and one on no condition.  Both succeed in
this order, and all sums are small in both orders, but in the other order only one visit is added. -/
theorem conditional_counter_depends_on_order :
    let s := Visits.empty.run Visits.fresh
    let steps := [Visits.addFirst, Visits.add 1]
    Counting Visits.home "visits" s steps ∧ AttributeValue.Counts (s.attribute? Visits.home "visits") 0 ∧
      StaysInRange 0 (CountedCall.deltas steps) ∧ StaysInRange 0 (CountedCall.deltas steps.reverse) ∧
      (s.run (CountedCall.calls steps)).attribute? Visits.home "visits" = some (.n "6") ∧
      (s.run (CountedCall.calls steps.reverse)).attribute? Visits.home "visits" = some (.n "1") := by
  intro s steps
  have countable : Countable s Visits.pages Visits.home "visits" :=
    ⟨(Store.Sound.new (show Store.new [some Visits.pages] = .ok Visits.empty from rfl)).run Visits.fresh,
      ⟨"pages", rfl⟩, ⟨rfl, rfl, rfl⟩, by decide⟩
  have tables : s.tables = Visits.empty.tables := Store.tables_run _ _
  have none : AttributeValue.Counts (s.attribute? Visits.home "visits") 0 := .inl rfl
  have first : s.Adds Visits.home "visits" 5 Visits.addFirst.call :=
    Visits.adds tables rfl rfl (by decide +kernel)
  have second : (s.perform Visits.addFirst.call).1.Adds Visits.home "visits" 1 (Visits.add 1).call :=
    Visits.adds ((Store.tables_perform _ _).trans tables) rfl rfl (by decide +kernel)
  have alone : s.Adds Visits.home "visits" 1 (Visits.add 1).call := Visits.adds tables rfl rfl (by decide +kernel)
  have late : ((s.perform (Visits.add 1).call).1.perform Visits.addFirst.call).2.isOk = false := by
    decide +kernel
  obtain ⟨cause, failed⟩ := Outcome.error_of_isOk late
  -- in the other order the second call counts as one that fails
  let others : List CountedCall := [Visits.add 1, ⟨Visits.addFirst.call, Option.none⟩]
  have counting : Counting Visits.home "visits" s steps := ⟨first, second, trivial⟩
  have countingOthers : Counting Visits.home "visits" s others := ⟨alone, .fails cause failed, trivial⟩
  have stays : StaysInRange 0 (CountedCall.deltas steps) := Visits.staysInRange (by decide)
  have staysOthers : StaysInRange 0 (CountedCall.deltas others) := Visits.staysInRange (by decide)
  exact ⟨counting, none, stays, Visits.staysInRange (by decide),
    counting.attribute?_eq countable stays none (by decide),
    countingOthers.attribute?_eq countable staysOthers none (by decide)⟩

end DocTable
