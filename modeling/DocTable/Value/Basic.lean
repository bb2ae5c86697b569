import DocTable.Attribute.Basic
import DocTable.Number.Binary
import DocTable.Number.Integer
import DocTable.Value.Instant

/-!
# Dynamic values

The values that documents and request parameters are made of.  Text files give only a few of them
(null, truth values, texts, integers, doubles, numerals too wide for an integer, documents and
lists); a caller of the library can hand in any of the others: integers of a width, maps, sets of
texts, references, values that already are attribute values, and things that have no attribute form
at all.

`comparison` and `literal` are resolved filter values: an operator with its operand, or an operand
to be matched by equality.
-/

namespace DocTable

set_option autoImplicit false

open Number

/-- The types of integers. -/
inductive IntegerType where
  | int | int8 | int16 | int32 | int64
  | uint | uint8 | uint16 | uint32 | uint64
  deriving DecidableEq, Repr, Inhabited

namespace IntegerType

/-- The name of an integer type. -/
def name : IntegerType → String
  | .int => "int"
  | .int8 => "int8"
  | .int16 => "int16"
  | .int32 => "int32"
  | .int64 => "int64"
  | .uint => "uint"
  | .uint8 => "uint8"
  | .uint16 => "uint16"
  | .uint32 => "uint32"
  | .uint64 => "uint64"

/-- Every integer type. -/
def all : List IntegerType :=
  [.int, .int8, .int16, .int32, .int64, .uint, .uint8, .uint16, .uint32, .uint64]

/-- The integer type of a name. -/
def ofName? (name : String) : Option IntegerType := all.find? fun t => t.name = name

/-- Whether a type has negative numbers. -/
def isSigned : IntegerType → Bool
  | .int | .int8 | .int16 | .int32 | .int64 => true
  | _ => false

end IntegerType

/-- The comparisons that a filter can ask for. -/
inductive Operator where
  | eq | gt | gte | lt | lte
  deriving DecidableEq, Repr, Inhabited

namespace Operator

/-- The key by which a document names a comparison. -/
def key : Operator → String
  | .eq => "$eq"
  | .gt => "$gt"
  | .gte => "$gte"
  | .lt => "$lt"
  | .lte => "$lte"

/-- The symbol of a comparison in an expression. -/
def symbol : Operator → String
  | .eq => "="
  | .gt => ">"
  | .gte => ">="
  | .lt => "<"
  | .lte => "<="

/-- The comparison that a key names. -/
def ofKey? (key : String) : Option Operator :=
  [Operator.eq, .gt, .gte, .lt, .lte].find? fun op => op.key = key

end Operator

/-- A dynamic value. -/
inductive Value where
  | null
  | bool (value : Bool)
  | text (value : String)
  /-- A text with octets that are no text. -/
  | raw (octets : Text.Raw)
  | integer (type : IntegerType) (value : Int)
  | double (value : Binary64)
  | single (value : Binary32)
  /-- A number kept as its text. -/
  | numeral (text : String)
  | bytes (value : Bytes)
  /-- Fields in the order in which they were written, repetitions kept. -/
  | document (fields : List (String × Value))
  /-- Fields by name, in the order of their names. -/
  | map (fields : List (String × Value))
  | list (items : List Value)
  | literal (operand : Value)
  | comparison (operator : Operator) (operand : Value)
  | texts (items : List String)
  | doubles (items : List Binary64)
  | byteStrings (items : List Bytes)
  /-- An array of a fixed length. -/
  | integers (items : List Int)
  | textMap (fields : List (String × String))
  /-- An empty map whose keys are numbers. -/
  | numberedMap
  /-- A record of attributes, which may be missing altogether. -/
  | attributes (item : Option (List (String × AttributeValue)))
  | attributeValue (value : AttributeValue)
  | reference (target : Value)
  | nullReference
  | namedText (value : String)
  | namedInteger (value : Int)
  | namedUnsigned (value : Nat)
  | namedDouble (value : Binary64)
  /-- A record of a person: an identifier and an age. -/
  | person (id : String) (age : Int)
  /-- A map whose keys are values of any type. -/
  | keyedMap (entries : List (Value × Value))
  /-- A point in time, by its written form. -/
  | instant (value : Instant)
  | function
  | channel
  | complex
  deriving Repr, Inhabited

/-- A document: named values in the order in which they were written, repetitions kept. -/
abbrev Document := List (String × Value)

namespace Value

/-- An integer as documents hold it. -/
def int64 (n : Int) : Value := .integer .int64 n

/-- The text of a value, if it is one; octets that are no text are spelled. -/
def text? : Value → Option String
  | .text t => some t
  | .raw octets => some octets.spelled
  | _ => none

/-- The name of a value's type as error messages give it. -/
def typeName : Value → String
  | .null => "<nil>"
  | .bool _ => "bool"
  | .text _ | .raw _ => "string"
  | .integer type _ => type.name
  | .double _ => "float64"
  | .single _ => "float32"
  | .numeral _ => "json.Number"
  | .bytes _ => "[]uint8"
  | .document _ => "doc.D"
  | .map _ => "map[string]interface \x7b\x7d"
  | .list _ => "[]interface \x7b\x7d"
  | .literal _ | .comparison _ _ => "doc.Value"
  | .texts _ => "[]string"
  | .doubles _ => "[]float64"
  | .byteStrings _ => "[][]uint8"
  | .integers items => "[" ++ toString items.length ++ "]int"
  | .textMap _ => "map[string]string"
  | .numberedMap => "map[int]string"
  | .attributes _ => "map[string]types.AttributeValue"
  | .attributeValue v => v.typeName
  | .reference target => "*" ++ target.typeName
  | .nullReference => "*int"
  | .namedText _ => "string"
  | .namedInteger _ => "int32"
  | .namedUnsigned _ => "uint16"
  | .namedDouble _ => "float64"
  | .person _ _ => "struct"
  | .keyedMap _ => "map[interface \x7b\x7d]interface \x7b\x7d"
  | .instant _ => "time.Time"
  | .function => "func()"
  | .channel => "chan int"
  | .complex => "complex128"

end Value

end DocTable
