import DocTable.Proofs.Outcome
import DocTable.Store.Stored

/-!
# Reading back what is stored

The stored form of a value gives the value back (`value?_of_stored`), and so the stored form of an
item gives the item back, with its attributes in the order in which they were
(`item?_of_stored`).  Whatever a stored form gives can be stored again (`stored_of_value?`), so an item
that was read can be stored with attributes that can be stored (`Item.exists_stored`).
-/

namespace DocTable

set_option autoImplicit false

mutual
theorem AttributeValue.value?_of_stored : ∀ (value : AttributeValue) {form : Stored},
    value.stored = .ok form → form.value? = some value
  | .s _, _, stored | .raw _, _, stored | .n _, _, stored | .b _, _, stored | .bool _, _, stored
  | .null _, _, stored | .ss _, _, stored | .ns _, _, stored | .bs _, _, stored => by
      cases stored
      rfl
  | .m fields, _, stored => by
      obtain ⟨forms, storedFields, done⟩ := Outcome.ok_of_bind stored
      cases done
      simp [Stored.value?, AttributeValue.fieldValues?_of_storedFields fields storedFields]
  | .l items, _, stored => by
      obtain ⟨forms, storedItems, done⟩ := Outcome.ok_of_bind stored
      cases done
      simp [Stored.value?, AttributeValue.values?_of_storedItems items storedItems]
  | .unset, _, stored | .unknown, _, stored => by cases stored

theorem AttributeValue.fieldValues?_of_storedFields :
    ∀ (fields : List (String × AttributeValue)) {forms : List (String × Stored)},
    AttributeValue.storedFields fields = .ok forms → Stored.fieldValues? forms = some fields
  | [], _, stored => by
      cases stored
      rfl
  | (name, value) :: rest, _, stored => by
      obtain ⟨form, storedValue, stored⟩ := Outcome.ok_of_bind stored
      obtain ⟨forms, storedRest, done⟩ := Outcome.ok_of_bind stored
      cases done
      simp [Stored.fieldValues?, AttributeValue.value?_of_stored value storedValue,
        AttributeValue.fieldValues?_of_storedFields rest storedRest]

theorem AttributeValue.values?_of_storedItems :
    ∀ (items : List AttributeValue) {forms : List Stored},
    AttributeValue.storedItems items = .ok forms → Stored.values? forms = some items
  | [], _, stored => by
      cases stored
      rfl
  | value :: rest, _, stored => by
      obtain ⟨form, storedValue, stored⟩ := Outcome.ok_of_bind stored
      obtain ⟨forms, storedRest, done⟩ := Outcome.ok_of_bind stored
      cases done
      simp [Stored.values?, AttributeValue.value?_of_stored value storedValue,
        AttributeValue.values?_of_storedItems rest storedRest]
end

/-- A stored item gives the item back. -/
theorem Item.item?_of_stored {item : Item} {form : StoredItem} (stored : item.stored = .ok form) :
    form.item? = some item := by
  induction item generalizing form with
  | nil =>
    cases stored
    rfl
  | cons entry rest ih =>
    obtain ⟨name, value⟩ := entry
    rw [Item.stored] at stored
    cases storedValue : value.stored with
    | error bad =>
      rw [storedValue] at stored
      cases stored
    | ok first =>
      simp only [storedValue] at stored
      obtain ⟨others, storedRest, done⟩ := Outcome.ok_of_bind stored
      cases done
      have readRest : Stored.fieldValues? others = some rest := ih storedRest
      simp [StoredItem.item?, Stored.fieldValues?,
        AttributeValue.value?_of_stored value storedValue, readRest]

/-! ## Storing what was read -/

mutual
theorem AttributeValue.stored_of_value? : ∀ {form : Stored} {value : AttributeValue},
    form.value? = some value → value.stored = .ok form
  | .text _ _, _, read | .flag _ _, _, read | .texts _ _, _, read => by
      rw [Stored.value?] at read
      split at read
      · rename_i tag
        cases read
        rw [tag]
        rfl
      · split at read
        · rename_i tag
          cases read
          rw [tag]
          rfl
        · cases read
  | .raw _ _, _, read | .bytes _ _, _, read | .byteStrings _ _, _, read => by
      rw [Stored.value?] at read
      split at read
      · rename_i tag
        cases read
        rw [tag]
        rfl
      · cases read
  | .fields _ forms, _, read => by
      rw [Stored.value?] at read
      split at read
      · rename_i tag
        obtain ⟨fields, readFields, rfl⟩ := Option.map_eq_some_iff.mp read
        rw [AttributeValue.stored, AttributeValue.storedFields_of_fieldValues? readFields, tag]
        rfl
      · cases read
  | .items _ forms, _, read => by
      rw [Stored.value?] at read
      split at read
      · rename_i tag
        obtain ⟨items, readItems, rfl⟩ := Option.map_eq_some_iff.mp read
        rw [AttributeValue.stored, AttributeValue.storedItems_of_values? readItems, tag]
        rfl
      · cases read

theorem AttributeValue.storedFields_of_fieldValues? :
    ∀ {forms : List (String × Stored)} {fields : List (String × AttributeValue)},
    Stored.fieldValues? forms = some fields → AttributeValue.storedFields fields = .ok forms
  | [], _, read => by
      cases read
      rfl
  | (name, form) :: rest, _, read => by
      obtain ⟨first, readFirst, read⟩ := Option.bind_eq_some_iff.mp read
      obtain ⟨others, readRest, done⟩ := Option.bind_eq_some_iff.mp read
      cases done
      rw [AttributeValue.storedFields, AttributeValue.stored_of_value? readFirst,
        AttributeValue.storedFields_of_fieldValues? readRest]
      rfl

theorem AttributeValue.storedItems_of_values? :
    ∀ {forms : List Stored} {items : List AttributeValue},
    Stored.values? forms = some items → AttributeValue.storedItems items = .ok forms
  | [], _, read => by
      cases read
      rfl
  | form :: rest, _, read => by
      obtain ⟨first, readFirst, read⟩ := Option.bind_eq_some_iff.mp read
      obtain ⟨others, readRest, done⟩ := Option.bind_eq_some_iff.mp read
      cases done
      rw [AttributeValue.storedItems, AttributeValue.stored_of_value? readFirst,
        AttributeValue.storedItems_of_values? readRest]
      rfl
end

/-- The attributes of an item that was read can be stored. -/
theorem Item.stored_of_item? {form : StoredItem} {item : Item} (read : form.item? = some item) :
    ∀ entry ∈ item, ∃ form, entry.2.stored = .ok form := by
  rw [StoredItem.item?] at read
  induction form generalizing item with
  | nil =>
    cases read
    exact fun _ member => absurd member List.not_mem_nil
  | cons entry rest ih =>
    obtain ⟨first, readFirst, read⟩ := Option.bind_eq_some_iff.mp read
    obtain ⟨others, readRest, done⟩ := Option.bind_eq_some_iff.mp read
    cases done
    intro entry member
    rcases List.mem_cons.mp member with rfl | later
    · exact ⟨_, AttributeValue.stored_of_value? readFirst⟩
    · exact ih readRest entry later

/-- An item can be stored if its attributes can. -/
theorem Item.exists_stored {item : Item} (attributes : ∀ entry ∈ item, ∃ form, entry.2.stored = .ok form) :
    ∃ form, item.stored = .ok form := by
  induction item with
  | nil => exact ⟨[], rfl⟩
  | cons entry rest ih =>
    obtain ⟨first, storedFirst⟩ := attributes entry List.mem_cons_self
    obtain ⟨others, storedRest⟩ := ih fun other member => attributes other (List.mem_cons_of_mem _ member)
    refine ⟨(entry.1, first) :: others, ?_⟩
    rw [Item.stored, storedFirst]
    dsimp only
    rw [storedRest]
    rfl

end DocTable
