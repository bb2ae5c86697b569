import DocTable.Attribute.Basic
import DocTable.Fields

/-!
# Stored items

A store does not keep attribute values as they are, but a type tag beside a content.  The content
does not know the tag, so not every stored value stands for an attribute value: reading one back
checks that the two fit.  Writing fails for values that are not set or of an unknown type.
-/

namespace DocTable

set_option autoImplicit false

/-- A type tag beside a content. -/
inductive Stored where
  | text (tag : String) (value : String)
  /-- A text with octets that are no text. -/
  | raw (tag : String) (value : Text.Raw)
  | flag (tag : String) (value : Bool)
  | bytes (tag : String) (value : Bytes)
  | texts (tag : String) (items : List String)
  | byteStrings (tag : String) (items : List Bytes)
  | fields (tag : String) (fields : List (String × Stored))
  | items (tag : String) (items : List Stored)
  deriving Repr, Inhabited

/-- An item as a store keeps it. -/
abbrev StoredItem := List (String × Stored)

/-! ## Writing -/

namespace AttributeValue

mutual
/-- The stored form of a value; the first value at any depth that has none is the failure. -/
def stored : AttributeValue → Except AttributeValue Stored
  | .s value => .ok (.text "S" value)
  | .raw value => .ok (.raw "S" value)
  | .n value => .ok (.text "N" value)
  | .b value => .ok (.bytes "B" value)
  | .bool value => .ok (.flag "BOOL" value)
  | .null value => .ok (.flag "NULL" value)
  | .ss members => .ok (.texts "SS" members)
  | .ns members => .ok (.texts "NS" members)
  | .bs members => .ok (.byteStrings "BS" members)
  | .m fields => do
    let stored ← storedFields fields
    return .fields "M" stored
  | .l items => do
    let stored ← storedItems items
    return .items "L" stored
  | .unset => .error .unset
  | .unknown => .error .unknown

/-- The stored forms of named values. -/
def storedFields : List (String × AttributeValue) → Except AttributeValue (List (String × Stored))
  | [] => .ok []
  | (name, value) :: rest => do
    let first ← stored value
    let others ← storedFields rest
    return (name, first) :: others

/-- The stored forms of listed values. -/
def storedItems : List AttributeValue → Except AttributeValue (List Stored)
  | [] => .ok []
  | value :: rest => do
    let first ← stored value
    let others ← storedItems rest
    return first :: others
end

end AttributeValue

/-- The stored form of an item; the failure names the attribute and tells what is in it. -/
def Item.stored : Item → Except (String × AttributeValue) StoredItem
  | [] => .ok []
  | (name, value) :: rest => match value.stored with
    | .error bad => .error (name, bad)
    | .ok first => do
      let others ← Item.stored rest
      return (name, first) :: others

/-! ## Reading -/

namespace Stored

mutual
/-- The attribute value of a stored form; none if the tag does not fit the content. -/
def value? : Stored → Option AttributeValue
  | .text tag value =>
    if tag = "S" then some (.s value) else if tag = "N" then some (.n value) else none
  | .raw tag value => if tag = "S" then some (.raw value) else none
  | .flag tag value =>
    if tag = "BOOL" then some (.bool value) else if tag = "NULL" then some (.null value) else none
  | .bytes tag value => if tag = "B" then some (.b value) else none
  | .texts tag members =>
    if tag = "SS" then some (.ss members) else if tag = "NS" then some (.ns members) else none
  | .byteStrings tag members => if tag = "BS" then some (.bs members) else none
  | .fields tag named => if tag = "M" then (fieldValues? named).map .m else none
  | .items tag listed => if tag = "L" then (values? listed).map .l else none

/-- The named values of stored fields. -/
def fieldValues? : List (String × Stored) → Option (List (String × AttributeValue))
  | [] => some []
  | (name, stored) :: rest => do
    let first ← value? stored
    let others ← fieldValues? rest
    return (name, first) :: others

/-- The values of stored items of a list. -/
def values? : List Stored → Option (List AttributeValue)
  | [] => some []
  | stored :: rest => do
    let first ← value? stored
    let others ← values? rest
    return first :: others
end

end Stored

/-- The item of a stored form. -/
def StoredItem.item? (stored : StoredItem) : Option Item := Stored.fieldValues? stored

end DocTable
