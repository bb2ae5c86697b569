import Mathlib.Data.List.TakeWhile
import DocTable.Attribute.Decode
import DocTable.Attribute.Encode

/-!
# Attribute values that can be read back

An attribute value can be decoded if each number in it, at every depth, is one that a double can hold
(`AttributeValue.isReadable`, `Item.exists_decode`).  The encoder does not make sure of that: a number
that is kept as its text and has no exponent is taken over as it is, however large it is
(`Encode.plainDecimal_of_digits`, `Decode.number_of_large`).
-/

namespace DocTable

set_option autoImplicit false

open Number

namespace AttributeValue

mutual
/-- Whether every number of a value, at every depth, can be read as a double. -/
def isReadable : AttributeValue → Bool
  | .n text => (Binary64.read text).isOk
  | .ns members => members.all fun text => (Binary64.read text).isOk
  | .m fields => fieldsReadable fields
  | .l items => itemsReadable items
  | .unknown => false
  | _ => true

/-- Whether every number of named values can be read. -/
def fieldsReadable : List (String × AttributeValue) → Bool
  | [] => true
  | (_, v) :: rest => v.isReadable && fieldsReadable rest

/-- Whether every number of listed values can be read. -/
def itemsReadable : List AttributeValue → Bool
  | [] => true
  | v :: rest => v.isReadable && itemsReadable rest
end

end AttributeValue

namespace Decode

theorem exists_read {text : String} (readable : (Binary64.read text).isOk = true) :
    ∃ x, Binary64.read text = .ok x := by
  cases read : Binary64.read text with
  | ok x => exact ⟨x, rfl⟩
  | error fault =>
    rw [read] at readable
    cases readable

theorem exists_doubles {members : List String}
    (readable : (members.all fun text => (Binary64.read text).isOk) = true) :
    ∃ xs, doubles members = .ok xs := by
  induction members with
  | nil => exact ⟨[], rfl⟩
  | cons text rest ih =>
    rw [List.all_cons, Bool.and_eq_true] at readable
    obtain ⟨x, read⟩ := exists_read readable.1
    obtain ⟨xs, readRest⟩ := ih readable.2
    exact ⟨x :: xs, by simp [doubles, double, read, readRest, bind, Except.bind, pure, Except.pure]⟩

mutual
theorem exists_element : ∀ {v : AttributeValue}, v.isReadable = true → ∃ x, element v = .ok x
  | .s _, _ | .raw _, _ | .b _, _ | .bool _, _ | .null _, _ | .unset, _ | .ss _, _ | .bs _, _ => ⟨_, rfl⟩
  | .n text, readable => by
      obtain ⟨x, read⟩ := exists_read readable
      exact ⟨.double x, by simp [element, double, read, bind, Except.bind, pure, Except.pure]⟩
  | .ns members, readable => by
      obtain ⟨xs, read⟩ := exists_doubles readable
      exact ⟨.doubles xs, by simp [element, read, bind, Except.bind, pure, Except.pure]⟩
  | .m fields, readable => by
      have each : AttributeValue.fieldsReadable fields = true := readable
      obtain ⟨decoded, done⟩ := exists_elementFields each
      exact ⟨.map decoded, by simp [element, done, bind, Except.bind, pure, Except.pure]⟩
  | .l items, readable => by
      have each : AttributeValue.itemsReadable items = true := readable
      obtain ⟨decoded, done⟩ := exists_elements each
      exact ⟨.list decoded, by simp [element, done, bind, Except.bind, pure, Except.pure]⟩
  | .unknown, readable => by cases readable

theorem exists_elementFields : ∀ {fields : List (String × AttributeValue)},
    AttributeValue.fieldsReadable fields = true → ∃ xs, elementFields fields = .ok xs
  | [], _ => ⟨[], rfl⟩
  | (name, v) :: rest, readable => by
      rw [AttributeValue.fieldsReadable, Bool.and_eq_true] at readable
      obtain ⟨first, done⟩ := exists_element readable.1
      obtain ⟨tail, doneRest⟩ := exists_elementFields readable.2
      exact ⟨(name, first) :: tail,
        by simp [elementFields, done, doneRest, bind, Except.bind, pure, Except.pure]⟩

theorem exists_elements : ∀ {items : List AttributeValue},
    AttributeValue.itemsReadable items = true → ∃ xs, elements items = .ok xs
  | [], _ => ⟨[], rfl⟩
  | v :: rest, readable => by
      rw [AttributeValue.itemsReadable, Bool.and_eq_true] at readable
      obtain ⟨first, done⟩ := exists_element readable.1
      obtain ⟨tail, doneRest⟩ := exists_elements readable.2
      exact ⟨first :: tail, by simp [elements, done, doneRest, bind, Except.bind, pure, Except.pure]⟩
end

theorem exists_collection {v : AttributeValue} (readable : v.isReadable = true) :
    ∃ x, collection v = .ok x := by
  obtain ⟨x, done⟩ := exists_element readable
  exact ⟨x, by rw [collection, done]⟩

mutual
theorem exists_value : ∀ {v : AttributeValue}, v.isReadable = true → ∃ x, value v = .ok x
  | .s _, _ | .raw _, _ | .b _, _ | .bool _, _ | .null _, _ | .unset, _ => ⟨_, rfl⟩
  | .n text, readable => by
      obtain ⟨x, read⟩ := exists_read readable
      cases whole : readSigned 64 text with
      | ok n => exact ⟨.int64 n, by simp [value, number, whole]⟩
      | error fault => exact ⟨.double x, by simp [value, number, whole, read]⟩
  | .m fields, readable => by
      have each : AttributeValue.fieldsReadable fields = true := readable
      obtain ⟨decoded, done⟩ := exists_fieldValues each
      exact ⟨.map decoded, by simp [value, done, bind, Except.bind, pure, Except.pure]⟩
  | .l _, readable | .ss _, readable | .ns _, readable | .bs _, readable => by
      rw [value]
      exact exists_collection readable
  | .unknown, readable => by cases readable

theorem exists_fieldValues : ∀ {fields : List (String × AttributeValue)},
    AttributeValue.fieldsReadable fields = true → ∃ xs, fieldValues fields = .ok xs
  | [], _ => ⟨[], rfl⟩
  | (name, v) :: rest, readable => by
      rw [AttributeValue.fieldsReadable, Bool.and_eq_true] at readable
      obtain ⟨first, done⟩ := exists_value readable.1
      obtain ⟨tail, doneRest⟩ := exists_fieldValues readable.2
      exact ⟨(name, first) :: tail,
        by simp [fieldValues, done, doneRest, bind, Except.bind, pure, Except.pure]⟩
end

end Decode

/-- An item with numbers that can all be read can be decoded. -/
theorem Item.exists_decode {item : Item} (readable : AttributeValue.fieldsReadable item = true) :
    ∃ values, item.decode = .ok values :=
  Decode.exists_fieldValues readable

/-! ## Numbers that are too large -/

/-- A text of digits is encoded as it is, however many they are. -/
theorem Encode.plainDecimal_of_digits {text : String} (nonempty : text.toList ≠ [])
    (digits : ∀ c ∈ text.toList, isDigit c = true) : plainDecimal text = .ok text := by
  have unsigned : takeSign text.toList = (false, text.toList) := by
    rw [takeSign.eq_def]
    split
    · rename_i chars
      exact absurd (digits '-' (chars ▸ List.mem_cons_self)) (by decide)
    · rename_i chars
      exact absurd (digits '+' (chars ▸ List.mem_cons_self)) (by decide)
    · rfl
  have taken : takeDigits text.toList = (true, []) := by
    rw [takeDigits, List.takeWhile_eq_self_iff.mpr digits, List.dropWhile_eq_nil_iff.mpr digits]
    simp [nonempty]
  have decimal : isDecimal text = true := by
    simp [isDecimal, unsigned, taken, isExponent]
  have noExponent : hasExponent text = false := by
    rw [hasExponent, List.any_eq_false]
    intro c member mark
    have digit := digits c member
    simp only [Bool.or_eq_true, beq_iff_eq] at mark
    rcases mark with rfl | rfl <;> exact absurd digit (by decide)
  simp [plainDecimal, decimal, noExponent]

/-- A text of 309 digits cannot be decoded. -/
theorem Decode.number_of_large {text : String} (digits : text.toList = '2' :: List.replicate 308 '0') :
    number text = .error (.number text .outOfRange) := by
  -- the digits are evaluated as a list: evaluating the text would decode its octets
  have noInteger : readSigned 64 text = .error .outOfRange := by
    rw [readSigned, digits]
    decide +kernel
  have noDouble : Format.double.read text = .error .outOfRange := by
    rw [Format.read, readLiteral?, digits]
    decide +kernel
  simp only [number, noInteger, Binary64.read, noDouble, Except.map]

end DocTable
