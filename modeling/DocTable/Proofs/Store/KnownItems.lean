import DocTable.Proofs.Attribute.UsableValues
import DocTable.Proofs.Store.Stored

/-!
# Items that can be stored

A stored form has a tag beside a content that does not know it, and there are ten tags.  Writing chooses them and
reading trusts them, so both have to agree on every kind of value, and inside maps and lists at every depth.

Writing fails for one reason only: some value is not set, or of an unknown type.  The failure is such a value, and it
is inside the one that was to be written (`AttributeValue.inside_of_stored_error`); and where writing succeeds, it
has succeeded for every value inside (`AttributeValue.exists_stored_of_inside`).  So the items that can be stored are
the known ones, and these are read back as they were (`Item.item?_stored_of_known`).
-/

namespace DocTable

set_option autoImplicit false

namespace AttributeValue

/-- A value that is set and of one of the ten kinds. -/
def IsKind (v : AttributeValue) : Prop := v ≠ .unset ∧ v ≠ .unknown

theorem isKind_of_stored {v : AttributeValue} {form : Stored} (stored : v.stored = .ok form) : v.IsKind := by
  constructor <;> rintro rfl <;> cases stored

/-! ## Failures -/

mutual
/-- What cannot be stored is inside the value, and of no kind. -/
theorem inside_of_stored_error : ∀ (v : AttributeValue) {bad : AttributeValue},
    v.stored = .error bad → bad.Inside v ∧ ¬bad.IsKind
  | .s _, _, failed | .raw _, _, failed | .n _, _, failed | .b _, _, failed | .bool _, _, failed
  | .null _, _, failed | .ss _, _, failed | .ns _, _, failed | .bs _, _, failed => by cases failed
  | .m fields, _, failed => by
      rcases Outcome.error_of_bind failed with failedFields | ⟨_, _, done⟩
      · obtain ⟨field, member, inside, noKind⟩ := inside_of_storedFields_error fields failedFields
        exact ⟨.field member inside, noKind⟩
      · cases done
  | .l items, _, failed => by
      rcases Outcome.error_of_bind failed with failedItems | ⟨_, _, done⟩
      · obtain ⟨item, member, inside, noKind⟩ := inside_of_storedItems_error items failedItems
        exact ⟨.item member inside, noKind⟩
      · cases done
  | .unset, _, failed => by
      cases failed
      exact ⟨.self, fun isKind => isKind.1 rfl⟩
  | .unknown, _, failed => by
      cases failed
      exact ⟨.self, fun isKind => isKind.2 rfl⟩

theorem inside_of_storedFields_error : ∀ (fields : List (String × AttributeValue)) {bad : AttributeValue},
    storedFields fields = .error bad → ∃ field ∈ fields, bad.Inside field.2 ∧ ¬bad.IsKind
  | [], _, failed => by cases failed
  | (name, value) :: rest, _, failed => by
      rcases Outcome.error_of_bind failed with failedValue | ⟨_, _, failed⟩
      · exact ⟨(name, value), List.mem_cons_self, inside_of_stored_error value failedValue⟩
      · rcases Outcome.error_of_bind failed with failedRest | ⟨_, _, done⟩
        · obtain ⟨field, member, bad⟩ := inside_of_storedFields_error rest failedRest
          exact ⟨field, List.mem_cons_of_mem _ member, bad⟩
        · cases done

theorem inside_of_storedItems_error : ∀ (items : List AttributeValue) {bad : AttributeValue},
    storedItems items = .error bad → ∃ item ∈ items, bad.Inside item ∧ ¬bad.IsKind
  | [], _, failed => by cases failed
  | value :: rest, _, failed => by
      rcases Outcome.error_of_bind failed with failedValue | ⟨_, _, failed⟩
      · exact ⟨value, List.mem_cons_self, inside_of_stored_error value failedValue⟩
      · rcases Outcome.error_of_bind failed with failedRest | ⟨_, _, done⟩
        · obtain ⟨item, member, bad⟩ := inside_of_storedItems_error rest failedRest
          exact ⟨item, List.mem_cons_of_mem _ member, bad⟩
        · cases done
end

/-! ## Successes -/

theorem exists_stored_of_mem_fields {fields : List (String × AttributeValue)} {forms : List (String × Stored)}
    (stored : storedFields fields = .ok forms) : ∀ field ∈ fields, ∃ form, field.2.stored = .ok form := by
  induction fields generalizing forms with
  | nil => exact List.forall_mem_nil _
  | cons field rest ih =>
    obtain ⟨first, here, stored⟩ := Outcome.ok_of_bind stored
    obtain ⟨_, others, _⟩ := Outcome.ok_of_bind stored
    exact List.forall_mem_cons.mpr ⟨⟨first, here⟩, ih others⟩

theorem exists_stored_of_mem_items {items : List AttributeValue} {forms : List Stored}
    (stored : storedItems items = .ok forms) : ∀ item ∈ items, ∃ form, item.stored = .ok form := by
  induction items generalizing forms with
  | nil => exact List.forall_mem_nil _
  | cons item rest ih =>
    obtain ⟨first, here, stored⟩ := Outcome.ok_of_bind stored
    obtain ⟨_, others, _⟩ := Outcome.ok_of_bind stored
    exact List.forall_mem_cons.mpr ⟨⟨first, here⟩, ih others⟩

/-- Whatever is inside a value that can be stored can be stored. -/
theorem exists_stored_of_inside {v w : AttributeValue} (inside : v.Inside w) {form : Stored}
    (stored : w.stored = .ok form) : ∃ form, v.stored = .ok form := by
  induction inside generalizing form with
  | self => exact ⟨form, stored⟩
  | field member _ ih =>
    obtain ⟨_, storedFields, _⟩ := Outcome.ok_of_bind stored
    obtain ⟨_, here⟩ := exists_stored_of_mem_fields storedFields _ member
    exact ih here
  | item member _ ih =>
    obtain ⟨_, storedItems, _⟩ := Outcome.ok_of_bind stored
    obtain ⟨_, here⟩ := exists_stored_of_mem_items storedItems _ member
    exact ih here

/-- A value can be stored exactly if every value inside it is of a kind. -/
theorem exists_stored_iff {v : AttributeValue} :
    (∃ form, v.stored = .ok form) ↔ ∀ w : AttributeValue, w.Inside v → w.IsKind := by
  constructor
  · rintro ⟨form, stored⟩ w inside
    obtain ⟨_, here⟩ := exists_stored_of_inside inside stored
    exact isKind_of_stored here
  · intro known
    cases stored : v.stored with
    | ok form => exact ⟨form, rfl⟩
    | error bad =>
      obtain ⟨inside, noKind⟩ := inside_of_stored_error v stored
      exact absurd (known bad inside) noKind

end AttributeValue

namespace Item

/-- An item in which every value, at every depth, is set and of one of the ten kinds. -/
def Known (item : Item) : Prop := ∀ field ∈ item, ∀ v : AttributeValue, v.Inside field.2 → v.IsKind

/-- An item that can be stored has attributes that can. -/
theorem exists_stored_of_mem {item : Item} {form : StoredItem} (stored : item.stored = .ok form) :
    ∀ field ∈ item, ∃ form, field.2.stored = .ok form :=
  stored_of_item? (item?_of_stored stored)

/-- **Exactly the known items can be stored, and they are read back as they were.**  The stored form of an item whose
values are all of the ten kinds, in maps and lists too, is one that gives the item; any other item has no stored
form. -/
theorem item?_stored_of_known (item : Item) :
    ((∃ form, item.stored = .ok form) ↔ item.Known) ∧
    (item.Known → ∃ form, item.stored = .ok form ∧ form.item? = some item) := by
  have storable : (∃ form, item.stored = .ok form) ↔ item.Known := by
    constructor
    · rintro ⟨form, stored⟩ field member
      exact AttributeValue.exists_stored_iff.mp (exists_stored_of_mem stored field member)
    · intro known
      exact exists_stored fun field member => AttributeValue.exists_stored_iff.mpr (known field member)
  refine ⟨storable, fun known => ?_⟩
  obtain ⟨form, stored⟩ := storable.mpr known
  exact ⟨form, stored, item?_of_stored stored⟩

end Item

namespace Parcels

/-- A parcel with values of all ten kinds, some of them empty, and in it a list within a map within a list. -/
def parcel : Item :=
  [("b", .b [0, 1]), ("bool", .bool false), ("bs", .bs [[], [255]]), ("l", .l []), ("n", .n "1.50"),
    ("null", .null false), ("ns", .ns ["1", "1"]), ("s", .s ""), ("ss", .ss []),
    ("m", .m [("log", .l [.m [("at", .l [.s "x", .m []])], .null true])])]

/-- A parcel with a value that is not set, deep inside. -/
def broken : Item := [("m", .m [("log", .l [.s "x", .m [("at", .unset)]])])]

end Parcels

/-- A parcel is read back as it was, and one with a value that is not set cannot be stored. -/
theorem Item.item?_stored_of_parcels :
    (∃ form, Parcels.parcel.stored = .ok form ∧ form.item? = some Parcels.parcel) ∧
    ¬Parcels.broken.Known ∧ ¬∃ form, Parcels.broken.stored = .ok form := by
  have known : Parcels.parcel.Known := (Item.item?_stored_of_known Parcels.parcel).1.mp ⟨_, rfl⟩
  have unknown : ¬Parcels.broken.Known := by
    intro known
    have inside : AttributeValue.unset.Inside (.m [("log", .l [.s "x", .m [("at", .unset)]])]) :=
      .field List.mem_cons_self (.item (List.mem_cons_of_mem _ List.mem_cons_self) (.field List.mem_cons_self .self))
    exact (known ("m", _) List.mem_cons_self .unset inside).1 rfl
  exact ⟨(Item.item?_stored_of_known Parcels.parcel).2 known, unknown,
    mt (Item.item?_stored_of_known Parcels.broken).1.mp unknown⟩

end DocTable
