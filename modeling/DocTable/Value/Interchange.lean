import DocTable.Value.Basic
import DocTable.Text.Quoted

/-!
# JSON of dynamic values

How a parameter that is not made of attribute values is shown: a document as the list of its
fields, bytes in base 64, an attribute value below the top as a record with one field.  The names of
a map with keys of any type are the texts of its keys, as far as these are texts, integers or points
in time.  Functions, channels, complex numbers and doubles that are not finite have no JSON.
-/

namespace DocTable

set_option autoImplicit false

/-- Why a value has no JSON. -/
inductive InterchangeError where
  | type (name : String)
  | value (text : String)
  | numeral (text : String)
  /-- A point in time in a zone of a day or more. -/
  | zone
  deriving DecidableEq, Repr

/-- The wording of an interchange error. -/
def InterchangeError.message : InterchangeError → String
  | .type name => "json: unsupported type: " ++ name
  | .value text => "json: unsupported value: " ++ text
  | .numeral text => "json: error calling MarshalJSONTo for type *json.Number: cannot parse " ++
    Text.quoted text ++ " as JSON number: invalid syntax"
  | .zone => "json: error calling MarshalJSON for type *time.Time: " ++
    "timezone hour outside of range [0,23]"

namespace Interchange

open Number

/-- A finite double. -/
def double (x : Binary64) : Except InterchangeError Json :=
  if x.isFinite then .ok (.number x.interchange) else .error (.value x.general)

/-- A list of doubles. -/
def doubles : List Binary64 → Except InterchangeError (List Json)
  | [] => .ok []
  | x :: rest => do
    let first ← double x
    let tail ← doubles rest
    return first :: tail

/-- Drops digits; there must be one. -/
def dropDigits? (cs : List Char) : Option (List Char) :=
  match cs with
  | c :: _ => if isDigit c then some (cs.dropWhile isDigit) else none
  | [] => none

/-- The rest after an optional fraction. -/
def dropFraction? : List Char → Option (List Char)
  | '.' :: rest => dropDigits? rest
  | cs => some cs

/-- Whether characters are an exponent, or nothing. -/
def isExponent : List Char → Bool
  | [] => true
  | c :: rest => (c == 'e' || c == 'E') && dropDigits? (takeSign rest).2 == some []

/-- Whether a text is a number of the interchange format. -/
def isNumber (text : String) : Bool :=
  let body := match text.toList with
    | '-' :: rest => rest
    | cs => cs
  let whole? := match body with
    | '0' :: rest => some rest
    | cs => dropDigits? cs
  match whole?.bind dropFraction? with
  | some rest => isExponent rest
  | none => false

/-- A number kept as its text; an empty text is zero. -/
def numeral (text : String) : Except InterchangeError Json :=
  if text = "" then .ok (.number "0")
  else if isNumber text then .ok (.number text)
  else .error (.numeral text)

mutual
/-- An attribute value below the top. -/
def attributeValue : AttributeValue → Json
  | .s t => .object [("Value", .string t)]
  | .raw octets => .object [("Value", .raw octets)]
  | .n t => .object [("Value", .string t)]
  | .b bytes => .object [("Value", .string (Text.Base64.encode bytes))]
  | .bool v => .object [("Value", .bool v)]
  | .null v => .object [("Value", .bool v)]
  | .m fields => .object [("Value", .object (attributeFields fields))]
  | .l items => .object [("Value", .array (attributeItems items))]
  | .ss members => .object [("Value", Json.strings members)]
  | .ns members => .object [("Value", Json.strings members)]
  | .bs members => .object [("Value", Json.strings (members.map Text.Base64.encode))]
  | .unset => .null
  | .unknown => .object [("Tag", .string ""), ("Value", .null)]

/-- Named attribute values below the top. -/
def attributeFields : List (String × AttributeValue) → List (String × Json)
  | [] => []
  | (k, v) :: rest => (k, attributeValue v) :: attributeFields rest

/-- Listed attribute values below the top. -/
def attributeItems : List AttributeValue → List Json
  | [] => []
  | v :: rest => attributeValue v :: attributeItems rest
end

/-- The name that a key of any type becomes. -/
def name? : Value → Option String
  | .text t => some t
  | .raw octets => some octets.spelled
  | .integer _ n => some (toString n)
  | .instant i => i.interchange?
  | _ => none

mutual
/-- The JSON of a value. -/
def value : Value → Except InterchangeError Json
  | .null => .ok .null
  | .bool v => .ok (.bool v)
  | .text t => .ok (.string t)
  | .raw octets => .ok (.raw octets)
  | .integer _ n => .ok (.int n)
  | .double x => double x
  | .single x =>
    if x.toDouble.isFinite then .ok (.number x.interchange) else .error (.value x.general)
  | .numeral t => numeral t
  | .bytes octets => .ok (.string (Text.Base64.encode octets))
  | .document fields => do
    let shown ← documentFields fields
    return .array shown
  | .map fields => do
    let shown ← members fields
    return .object shown
  | .list items => do
    let shown ← listItems items
    return .array shown
  | .literal _ => .ok (.object [])
  | .comparison _ _ => .ok (.object [])
  | .texts items => .ok (Json.strings items)
  | .doubles items => do
    let shown ← doubles items
    return .array shown
  | .byteStrings items => .ok (Json.strings (items.map Text.Base64.encode))
  | .integers items => .ok (.array (items.map .int))
  | .textMap fields => .ok (.object (Keyed.mapValues Json.string fields))
  | .numberedMap => .ok (.object [])
  | .attributes none => .ok .null
  | .attributes (some item) => .ok (.object (attributeFields item))
  | .attributeValue v => .ok (attributeValue v)
  | .reference target => value target
  | .nullReference => .ok .null
  | .namedText t => .ok (.string t)
  | .namedInteger n => .ok (.int n)
  | .namedUnsigned n => .ok (.int n)
  | .namedDouble x => double x
  | .person id age => .ok (.object [("ID", .string id), ("Age", .int age)])
  | .keyedMap entries => do
    let shown ← keyedMembers entries
    return .object (Keyed.ofList shown)
  | .instant i => match i.interchange? with
    | some text => .ok (.string text)
    | none => .error .zone
  | .function => .error (.type Value.function.typeName)
  | .channel => .error (.type Value.channel.typeName)
  | .complex => .error (.type Value.complex.typeName)

/-- The fields of a document, each a record of a key and a value. -/
def documentFields : List (String × Value) → Except InterchangeError (List Json)
  | [] => .ok []
  | (k, v) :: rest => do
    let first ← value v
    let tail ← documentFields rest
    return .object [("Key", .string k), ("Value", first)] :: tail

/-- The members of a map. -/
def members : List (String × Value) → Except InterchangeError (List (String × Json))
  | [] => .ok []
  | (k, v) :: rest => do
    let first ← value v
    let tail ← members rest
    return (k, first) :: tail

/-- The members of a map whose keys are values. -/
def keyedMembers : List (Value × Value) → Except InterchangeError (List (String × Json))
  | [] => .ok []
  | (k, v) :: rest => do
    let name ← match name? k with
      | some name => .ok name
      | none => .error (.type (Value.keyedMap []).typeName)
    let first ← value v
    let tail ← keyedMembers rest
    return (name, first) :: tail

/-- The items of a list. -/
def listItems : List Value → Except InterchangeError (List Json)
  | [] => .ok []
  | v :: rest => do
    let first ← value v
    let tail ← listItems rest
    return first :: tail
end

end Interchange

/-- The JSON of a dynamic value. -/
def Value.interchange (v : Value) : Except InterchangeError Json := Interchange.value v

end DocTable
