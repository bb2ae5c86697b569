import DocTable.Fields
import DocTable.Json.Basic
import DocTable.Text.Base64

/-!
# Attribute values

What an item of a table holds.  Besides the ten kinds of the data model there are two values that a
caller can hand in and that nothing can store: `unset`, an attribute that is named but has no
value, and `unknown`, a value of a kind this library does not know.  `Item` is a record of
attributes.

`wire` is the tagged JSON form in which requests are shown.
-/

namespace DocTable

set_option autoImplicit false

/-- A value of an attribute. -/
inductive AttributeValue where
  | s (text : String)
  /-- A text attribute with octets that are no text. -/
  | raw (octets : Text.Raw)
  | n (text : String)
  | b (bytes : Bytes)
  | bool (value : Bool)
  | null (value : Bool)
  | m (fields : List (String × AttributeValue))
  | l (items : List AttributeValue)
  | ss (members : List String)
  | ns (members : List String)
  | bs (members : List Bytes)
  | unset
  | unknown
  deriving Repr, BEq, Inhabited

/-- The attributes of an item by name. -/
abbrev Item := List (String × AttributeValue)

namespace AttributeValue

/-- The tag by which a value's kind is named. -/
def tag : AttributeValue → String
  | .s _ | .raw _ => "S"
  | .n _ => "N"
  | .b _ => "B"
  | .bool _ => "BOOL"
  | .null _ => "NULL"
  | .m _ => "M"
  | .l _ => "L"
  | .ss _ => "SS"
  | .ns _ => "NS"
  | .bs _ => "BS"
  | .unset => "<nil>"
  | .unknown => "unknown"

/-- The octets of a text attribute. -/
def textOctets? : AttributeValue → Option Bytes
  | .s text => some (Text.utf8 text)
  | .raw text => some text.octets
  | _ => none

/-- The name of a value's type as error messages give it. -/
def typeName : AttributeValue → String
  | .unset => "<nil>"
  | .unknown => "*types.UnknownUnionMember"
  | v => "*types.AttributeValueMember" ++ v.tag

mutual
/-- The tagged JSON form of a value; what cannot be stored has none. -/
def wire : AttributeValue → Json
  | .s t => .object [("S", .string t)]
  | .raw octets => .object [("S", .raw octets)]
  | .n t => .object [("N", .string t)]
  | .b bytes => .object [("B", .string (Text.Base64.encode bytes))]
  | .bool v => .object [("BOOL", .bool v)]
  | .null v => .object [("NULL", .bool v)]
  | .m fields => .object [("M", .object (wireFields fields))]
  | .l items => .object [("L", .array (wireItems items))]
  | .ss members => .object [("SS", Json.strings members)]
  | .ns members => .object [("NS", Json.strings members)]
  | .bs members => .object [("BS", Json.strings (members.map Text.Base64.encode))]
  | .unset => .null
  | .unknown => .null

/-- The tagged JSON form of named values. -/
def wireFields : List (String × AttributeValue) → List (String × Json)
  | [] => []
  | (k, v) :: rest => (k, v.wire) :: wireFields rest

/-- The tagged JSON form of listed values. -/
def wireItems : List AttributeValue → List Json
  | [] => []
  | v :: rest => v.wire :: wireItems rest
end

mutual
/-- Whether a value is set and of a known type, at every depth. -/
def isKnown : AttributeValue → Bool
  | .m fields => allFieldsKnown fields
  | .l items => allKnown items
  | .unset | .unknown => false
  | _ => true

/-- Whether named values are set and of known types. -/
def allFieldsKnown : List (String × AttributeValue) → Bool
  | [] => true
  | (_, v) :: rest => v.isKnown && allFieldsKnown rest

/-- Whether listed values are set and of known types. -/
def allKnown : List AttributeValue → Bool
  | [] => true
  | v :: rest => v.isKnown && allKnown rest
end

end AttributeValue

/-- The tagged JSON form of an item. -/
def Item.wire (item : Item) : Json := .object (AttributeValue.wireFields item)

end DocTable
