import DocTable.Proofs.Attribute.UsableValues
import DocTable.Proofs.Keyed
import DocTable.Proofs.Outcome

/-!
# Encoded values are known

Encoding gives values of the ten kinds at every depth (`Encode.isKnown_value`), whatever dynamic value
it is given: an attribute value below the top is taken for a record, and one without a value for null.
-/

namespace DocTable

set_option autoImplicit false

namespace AttributeValue

theorem allFieldsKnown_iff {fields : Item} :
    allFieldsKnown fields = true ↔ ∀ field ∈ fields, field.2.isKnown = true := by
  induction fields with
  | nil => simp [allFieldsKnown]
  | cons field rest ih =>
    rw [allFieldsKnown, Bool.and_eq_true, ih, List.forall_mem_cons]

theorem allKnown_iff {items : List AttributeValue} :
    allKnown items = true ↔ ∀ v ∈ items, v.isKnown = true := by
  induction items with
  | nil => simp [allKnown]
  | cons v rest ih => rw [allKnown, Bool.and_eq_true, ih, List.forall_mem_cons]

theorem allFieldsKnown_insertAll {fields others : Item} (known : allFieldsKnown fields = true)
    (new : allFieldsKnown others = true) : allFieldsKnown (Keyed.insertAll fields others) = true :=
  allFieldsKnown_iff.mpr fun field member => (Keyed.mem_insertAll member).elim
    (allFieldsKnown_iff.mp known field) (allFieldsKnown_iff.mp new field)

end AttributeValue

namespace Encode

open AttributeValue

theorem allFieldsKnown_ofList {fields : Item} (known : allFieldsKnown fields = true) :
    allFieldsKnown (Keyed.ofList fields) = true :=
  allFieldsKnown_insertAll rfl known

theorem allFieldsKnown_positions {items : List AttributeValue} (known : allKnown items = true)
    (start : Nat) : allFieldsKnown (positions start items) = true := by
  induction items generalizing start with
  | nil => rfl
  | cons v rest ih =>
    obtain ⟨first, others⟩ := Bool.and_eq_true_iff.mp known
    exact Bool.and_eq_true_iff.mpr ⟨first, ih others _⟩

theorem isKnown_indexed {items : List AttributeValue} (known : allKnown items = true) :
    (indexed items).isKnown = true :=
  allFieldsKnown_ofList (allFieldsKnown_positions known 0)

theorem allKnown_map {α : Type} {make : α → AttributeValue} (known : ∀ x, (make x).isKnown = true)
    (xs : List α) : allKnown (xs.map make) = true :=
  allKnown_iff.mpr (List.forall_mem_map.mpr fun x _ => known x)

theorem isKnown_recordBytes (bytes : Bytes) : (recordBytes bytes).isKnown = true := by
  rw [recordBytes]
  split <;> rfl

mutual
/-- The record that an attribute value is taken for is known. -/
theorem isKnown_record : ∀ v : AttributeValue, (record v).isKnown = true
  | .s _ | .raw _ | .n _ | .bool _ | .null _ | .unset | .unknown => rfl
  | .b bytes => Bool.and_eq_true_iff.mpr ⟨isKnown_recordBytes bytes, rfl⟩
  | .m fields => Bool.and_eq_true_iff.mpr ⟨allFieldsKnown_recordFields fields, rfl⟩
  | .l items => Bool.and_eq_true_iff.mpr ⟨allKnown_recordItems items, rfl⟩
  | .ss _ | .ns _ => Bool.and_eq_true_iff.mpr ⟨allKnown_map (fun _ => rfl) _, rfl⟩
  | .bs _ => Bool.and_eq_true_iff.mpr ⟨allKnown_map isKnown_recordBytes _, rfl⟩

theorem allFieldsKnown_recordFields : ∀ fields : Item, allFieldsKnown (recordFields fields) = true
  | [] => rfl
  | (_, v) :: rest => Bool.and_eq_true_iff.mpr ⟨isKnown_record v, allFieldsKnown_recordFields rest⟩

theorem allKnown_recordItems : ∀ items : List AttributeValue, allKnown (recordItems items) = true
  | [] => rfl
  | v :: rest => Bool.and_eq_true_iff.mpr ⟨isKnown_record v, allKnown_recordItems rest⟩
end

theorem isKnown_double {path : String} {x : Number.Binary64} {a : AttributeValue}
    (done : double path x = .ok a) : a.isKnown = true := by
  rw [double] at done
  split at done <;> cases done
  rfl

theorem allFieldsKnown_doubles {path : String} {xs : List Number.Binary64} {position : Nat}
    {encoded : Item} (done : doubles path position xs = .ok encoded) :
    allFieldsKnown encoded = true := by
  induction xs generalizing position encoded with
  | nil => cases done; rfl
  | cons x rest ih =>
    obtain ⟨first, doneFirst, done⟩ := Outcome.ok_of_bind done
    obtain ⟨others, doneOthers, done⟩ := Outcome.ok_of_bind done
    cases done
    exact Bool.and_eq_true_iff.mpr ⟨isKnown_double doneFirst, ih doneOthers⟩

mutual
/-- **Whatever encoding gives is known.** -/
theorem isKnown_value : ∀ {v : Value} {path : String} {a : AttributeValue},
    value path v = .ok a → a.isKnown = true
  | .null, _, _, done | .text _, _, _, done | .raw _, _, _, done | .bool _, _, _, done | .bytes _, _, _, done
  | .integer _ _, _, _, done | .nullReference, _, _, done | .namedText _, _, _, done
  | .namedInteger _, _, _, done | .namedUnsigned _, _, _, done | .instant _, _, _, done
  | .person _ _, _, _, done => by cases done; rfl
  | .single _, _, _, done | .double _, _, _, done | .namedDouble _, _, _, done => isKnown_double done
  | .numeral _, _, _, done => by
    rw [value] at done
    split at done <;> cases done
    rfl
  | .literal operand, path, _, done | .comparison _ operand, path, _, done =>
    @isKnown_value operand path _ done
  | .document fields, _, _, done | .map fields, _, _, done => by
    obtain ⟨encoded, doneFields, done⟩ := Outcome.ok_of_bind done
    cases done
    exact allFieldsKnown_ofList (allFieldsKnown_fieldsAt doneFields)
  | .list items, _, _, done => by
    obtain ⟨encoded, doneItems, done⟩ := Outcome.ok_of_bind done
    cases done
    exact allFieldsKnown_ofList (allFieldsKnown_itemsAt doneItems)
  | .texts _, _, _, done | .byteStrings _, _, _, done | .integers _, _, _, done => by
    cases done
    exact isKnown_indexed (allKnown_map (fun _ => rfl) _)
  | .doubles _, _, _, done => by
    obtain ⟨encoded, doneItems, done⟩ := Outcome.ok_of_bind done
    cases done
    exact allFieldsKnown_ofList (allFieldsKnown_doubles doneItems)
  | .textMap fields, _, _, done => by
    cases done
    exact allFieldsKnown_iff.mpr (List.forall_mem_map.mpr fun _ _ => rfl)
  | .attributes item?, _, _, done => by
    cases done
    exact allFieldsKnown_recordFields _
  | .attributeValue v, _, _, done => by
    cases done
    exact isKnown_record v
  | .reference target, path, _, done => by
    rcases value_reference target with empty | same
    · rw [empty] at done
      cases done
      rfl
    · rw [same] at done
      exact isKnown_value done
  | .numberedMap, _, _, done | .keyedMap _, _, _, done | .function, _, _, done | .channel, _, _, done
  | .complex, _, _, done => by cases done

theorem allFieldsKnown_fieldsAt : ∀ {fields : List (String × Value)} {path : String} {encoded : Item},
    fieldsAt path fields = .ok encoded → allFieldsKnown encoded = true
  | [], _, _, done => by cases done; rfl
  | (_, _) :: _, _, _, done => by
    obtain ⟨first, doneFirst, done⟩ := Outcome.ok_of_bind done
    obtain ⟨others, doneOthers, done⟩ := Outcome.ok_of_bind done
    cases done
    exact Bool.and_eq_true_iff.mpr ⟨isKnown_value doneFirst, allFieldsKnown_fieldsAt doneOthers⟩

theorem allFieldsKnown_itemsAt : ∀ {items : List Value} {path : String} {position : Nat}
    {encoded : Item}, itemsAt path position items = .ok encoded → allFieldsKnown encoded = true
  | [], _, _, _, done => by cases done; rfl
  | _ :: _, _, _, _, done => by
    obtain ⟨first, doneFirst, done⟩ := Outcome.ok_of_bind done
    obtain ⟨others, doneOthers, done⟩ := Outcome.ok_of_bind done
    cases done
    exact Bool.and_eq_true_iff.mpr ⟨isKnown_value doneFirst, allFieldsKnown_itemsAt doneOthers⟩
end

end Encode

open AttributeValue

end DocTable
