import DocTable.Number.Integer
import DocTable.Request.Operation
import DocTable.Request.Params
import DocTable.Value.Display

/-!
# Typed requests

A service takes each parameter with a type of its own: texts, truth values, integers of 32 bits,
names and attribute values.  A compiled request holds dynamic values, which are converted
generously: numbers and texts into each other, truth values into both, a list of maps into one map.
All parameters that cannot be converted are reported together, in the order of their messages.
-/

namespace DocTable

set_option autoImplicit false

open Number

/-- The parameters of a request with their types.  A choice among names is empty if it is not made. -/
structure TypedRequest where
  tableName? : Option String := none
  item? : Option Item := none
  key? : Option Item := none
  exclusiveStartKey? : Option Item := none
  names? : Option (Fields String) := none
  values? : Option Item := none
  condition? : Option String := none
  filter? : Option String := none
  keyCondition? : Option String := none
  projection? : Option String := none
  update? : Option String := none
  indexName? : Option String := none
  consistentRead? : Option Bool := none
  scanIndexForward? : Option Bool := none
  limit? : Option Int := none
  segment? : Option Int := none
  totalSegments? : Option Int := none
  returnConsumedCapacity : String := ""
  returnItemCollectionMetrics : String := ""
  returnValues : String := ""
  select : String := ""
  deriving Repr, Inhabited

/-- Why a parameter cannot be converted. -/
inductive ConversionFault where
  | unconvertible (name want got shown : String)
  | integer (name : String) (octets : Bytes) (fault : Fault)
  | bool (name : String) (octets : Bytes)
  | notAMap (name kind : String)
  | element (name got : String)
  | unassignable (got : String)
  deriving DecidableEq, Repr

/-- The wording of a conversion fault. -/
def ConversionFault.message : ConversionFault → String
  | .unconvertible name want got shown =>
    "'" ++ name ++ "' expected type '" ++ want ++ "', got unconvertible type '" ++ got ++
      "', value: '" ++ shown ++ "'"
  | .integer name octets fault =>
    "cannot parse '" ++ name ++ "' as int: strconv.ParseInt: parsing " ++ Text.quotedBytes octets ++
      ": " ++ fault.message
  | .bool name octets =>
    "cannot parse '" ++ name ++ "' as bool: strconv.ParseBool: parsing " ++ Text.quotedBytes octets ++
      ": " ++ Fault.malformed.message
  | .notAMap name kind => "'" ++ name ++ "' expected a map, got '" ++ kind ++ "'"
  | .element name got =>
    "'" ++ name ++ "' expected type 'types.AttributeValue', got '" ++ got ++ "'"
  | .unassignable got =>
    "cannot assign type '" ++ got ++ "' to map value field of type 'types.AttributeValue'"

/-- Why a request has no typed form. -/
structure TypedError where
  input : String
  faults : List ConversionFault
  deriving DecidableEq, Repr

/-- The wording of a typing error. -/
def TypedError.message (e : TypedError) : String :=
  let lines := (e.faults.map fun f => "* " ++ f.message).mergeSort fun a b => !(b < a)
  "decode request into *dynamodb." ++ e.input ++ ": " ++ toString e.faults.length ++
    " error(s) decoding:\n\n" ++ "\n".intercalate lines

namespace Conversion

/-- The value behind a reference. -/
def followed : Value → Value
  | .reference target => target
  | v => v

/-- The name of the type of a followed value. -/
def typeOf (v : Value) : String :=
  match followed v with
  | .attributeValue x => String.ofList (x.typeName.toList.drop 1)
  | other => other.typeName

/-- Whether a value is nothing at all. -/
def isNothing : Value → Bool
  | .null => true
  | .nullReference => true
  | _ => false

/-- Whether a value leaves an optional parameter unset. -/
def isUnset (v : Value) : Bool :=
  isNothing v || match followed v with
    | .null | .nullReference | .attributes none => true
    | _ => false

/-- The fault of a value that has no conversion. -/
def unconvertible {α : Type} (name want : String) (v : Value) : Except ConversionFault α :=
  .error (.unconvertible name want (typeOf v) v.display)

/-! ## Texts, integers and truth values -/

/-- A value as a text. -/
def text (name want : String) (v : Value) : Except ConversionFault String :=
  match followed v with
  | .text t | .namedText t | .numeral t => .ok t
  | .raw octets => .ok octets.spelled
  | .bool b => .ok (if b then "1" else "0")
  | .integer _ n | .namedInteger n => .ok (toString n)
  | .namedUnsigned n => .ok (toString n)
  | .double x | .namedDouble x => .ok x.positional
  | .single x => .ok x.toDouble.positional
  | .bytes octets => .ok (Text.ofBytes octets)
  | _ => unconvertible name want v

/-- The integer of 32 bits that a double is cut to; one that does not fit 64 bits gives zero. -/
def integerOfDouble (x : Binary64) : Int :=
  if x.isFinite && -0x8000000000000000 ≤ x.truncate && x.truncate < 0x8000000000000000 then
    wrapSigned 32 x.truncate
  else 0

/-- An integer of 32 bits from a text with given octets; an empty text is zero. -/
def integerOfText (name t : String) (octets : Bytes) : Except ConversionFault Int :=
  match readSignedAnyBase 32 (if t = "" then "0" else t) with
  | .ok n => .ok n
  | .error fault => .error (.integer name octets fault)

/-- A value as an integer of 32 bits. -/
def integer (name : String) (v : Value) : Except ConversionFault Int :=
  match followed v with
  | .integer _ n | .namedInteger n => .ok (wrapSigned 32 n)
  | .namedUnsigned n => .ok (wrapSigned 32 n)
  | .double x | .namedDouble x => .ok (integerOfDouble x)
  | .single x => .ok (integerOfDouble x.toDouble)
  | .bool b => .ok (if b then 1 else 0)
  | .text t | .namedText t | .numeral t => integerOfText name t (Text.utf8 t)
  | .raw raw => integerOfText name raw.spelled raw.octets
  | _ => unconvertible name "int32" v

/-- Whether a double is other than zero. -/
def isNonzero (x : Binary64) : Bool := x.integer? != some 0

/-- A truth value from a text with given octets; an empty text is false. -/
def boolOfText (name t : String) (octets : Bytes) : Except ConversionFault Bool :=
  match readBool? t with
  | some b => .ok b
  | none => if t = "" then .ok false else .error (.bool name octets)

/-- A value as a truth value. -/
def bool (name : String) (v : Value) : Except ConversionFault Bool :=
  match followed v with
  | .bool b => .ok b
  | .integer _ n | .namedInteger n => .ok (n != 0)
  | .namedUnsigned n => .ok (n != 0)
  | .double x | .namedDouble x => .ok (isNonzero x)
  | .single x => .ok (isNonzero x.toDouble)
  | .text t | .namedText t | .numeral t => boolOfText name t (Text.utf8 t)
  | .raw raw => boolOfText name raw.spelled raw.octets
  | _ => unconvertible name "bool" v

/-! ## Attributes -/

/-- The name of an entry of a map or a list. -/
def entryName (name key : String) : String := name ++ "[" ++ key ++ "]"

/-- Puts entries of a plain map on top of others; each must be an attribute value or nothing. -/
def entries (name : String) (below : Item) :
    List (String × Value) → Except (List ConversionFault) Item
  | [] => .ok below
  | (key, v) :: rest =>
    let first : Except ConversionFault AttributeValue := match v with
      | .attributeValue x => .ok x
      | .null | .nullReference => .ok .unset
      | other => .error (.element (entryName name key) other.typeName)
    match first, entries name below rest with
    | .ok x, .ok item => .ok (Keyed.insert key x item)
    | .ok _, .error faults => .error faults
    | .error fault, .ok _ => .error [fault]
    | .error fault, .error faults => .error (fault :: faults)

/-- Puts entries of a map with keys of any type on top of others; each key is converted to a text. -/
def keyedEntries (name : String) (below : Item) :
    List (Value × Value) → Except (List ConversionFault) Item
  | [] => .ok below
  | (key, v) :: rest =>
    let entry := entryName name "<interface \x7b\x7d Value>"
    let first : Except ConversionFault (String × AttributeValue) := do
      let key ← if isUnset key then pure "" else text entry "string" key
      match v with
      | .attributeValue x => return (key, x)
      | .null | .nullReference => return (key, .unset)
      | other => throw (.element entry other.typeName)
    match first, keyedEntries name below rest with
    | .ok (key, x), .ok item => .ok (Keyed.insert key x item)
    | .ok _, .error faults => .error faults
    | .error fault, .ok _ => .error [fault]
    | .error fault, .error faults => .error (fault :: faults)

/-- The type of what an attribute value holds. -/
def contentType : AttributeValue → String
  | .b _ => "[]uint8"
  | .bool _ | .null _ => "bool"
  | .m _ => "map[string]types.AttributeValue"
  | .l _ => "[]types.AttributeValue"
  | .ss _ | .ns _ => "[]string"
  | .bs _ => "[][]uint8"
  | _ => "string"

/-- The items of a list of which none is a map. -/
def plainItems {α : Type} (name kind : String) (below : Option Item) (items : List α) :
    Except (List ConversionFault) (Option Item) :=
  if items.isEmpty then .ok (some (below.getD []))
  else .error [.notAMap (entryName name "0") kind]

/-- The kind of a value that is neither a map nor a list. -/
def kindOf : Value → String
  | .numeral _ => "string"
  | .reference _ => "ptr"
  | .function => "func"
  | .channel => "chan"
  | v => v.typeName

mutual
/-- A value as attributes on top of others.  A list gives the attributes of all its items. -/
def attributes (name : String) (below : Option Item) :
    Value → Except (List ConversionFault) (Option Item)
  | .null => .ok below
  | .nullReference => .ok below
  | .reference target => match target with
    | .null | .nullReference => .error [.notAMap name (kindOf target)]
    | .reference _ | .attributeValue _ => .error [.notAMap name "ptr"]
    | _ => attributes name below target
  | .attributes none => .ok none
  | .attributes (some item) => .ok (some (Keyed.insertAll (below.getD []) item))
  | .map fields => (entries name (below.getD []) fields).map some
  | .textMap fields =>
    (entries name (below.getD []) (Keyed.mapValues Value.text fields)).map some
  | .numberedMap => .ok (some (below.getD []))
  | .keyedMap keyed => (keyedEntries name (below.getD []) keyed).map some
  | .list items => listed name 0 below items
  | .document fields =>
    if fields.isEmpty then .ok (some (below.getD [])) else .error [.unassignable "string"]
  | .texts items => plainItems name "string" below items
  | .bytes octets => plainItems name "uint8" below octets
  | .doubles items => plainItems name "float64" below items
  | .byteStrings items => plainItems (entryName name "0") "uint8" below items
  | .integers items => plainItems name "int" below items
  | .literal _ => .ok (some (below.getD []))
  | .comparison _ _ => .ok (some (below.getD []))
  | .instant _ => .ok (some (below.getD []))
  | .person _ _ => .error [.unassignable "string"]
  | .attributeValue v => .error [.unassignable (contentType v)]
  | other => .error [.notAMap name (kindOf other)]

/-- The attributes of listed values, up to the first that has none. -/
def listed (name : String) (position : Nat) (below : Option Item) :
    List Value → Except (List ConversionFault) (Option Item)
  | [] => .ok (if position = 0 then some (below.getD []) else below)
  | v :: rest => do
    let item? ← attributes (entryName name (toString position)) below v
    listed name (position + 1) item? rest
end

/-! ## Parameters -/

/-- Reads an optional parameter; a fault is added to those before it. -/
def optional {α : Type} (r : Params) (name : String)
    (convert : String → Value → Except ConversionFault α) : Option α × List ConversionFault :=
  match Keyed.lookup name r with
  | none => (none, [])
  | some v =>
    if isUnset v then (none, [])
    else match convert name v with
      | .ok x => (some x, [])
      | .error fault => (none, [fault])

/-- Reads a choice among names. -/
def choice (r : Params) (name want : String) : String × List ConversionFault :=
  match Keyed.lookup name r with
  | none => ("", [])
  | some v =>
    if isNothing v then ("", [])
    else match text name want v with
      | .ok t => (t, [])
      | .error fault => ("", [fault])

/-- Reads attributes. -/
def item (r : Params) (name : String) : Option Item × List ConversionFault :=
  match Keyed.lookup name r with
  | none => (none, [])
  | some v => match attributes name none v with
    | .ok item? => (item?, [])
    | .error faults => (none, faults)

/-- Reads the names of placeholders. -/
def names (r : Params) : Option (Fields String) :=
  match Keyed.lookup Params.namesKey r with
  | some (.textMap names) => some names
  | _ => none

end Conversion

/-- The name of the typed form of an operation's request. -/
def Operation.inputName : Operation → String
  | .insert | .replace => "PutItemInput"
  | .query => "QueryInput"
  | .scan => "ScanInput"
  | .delete => "DeleteItemInput"
  | .update => "UpdateItemInput"
  | .other _ => ""

namespace TypedRequest

open Conversion

/-- The typed form of a request. -/
def ofParams (op : Operation) (r : Params) : Except TypedError TypedRequest :=
  let string (name : String) := optional r name fun name v => text name "string" v
  let (tableName?, f1) := string "TableName"
  let (item?, f2) := item r "Item"
  let (key?, f3) := item r "Key"
  let (exclusiveStartKey?, f4) := item r "ExclusiveStartKey"
  let (values?, f5) := item r Params.valuesKey
  let (condition?, f6) := string "ConditionExpression"
  let (filter?, f7) := string "FilterExpression"
  let (keyCondition?, f8) := string "KeyConditionExpression"
  let (projection?, f9) := string "ProjectionExpression"
  let (update?, f10) := string "UpdateExpression"
  let (indexName?, f11) := string "IndexName"
  let (consistentRead?, f12) := optional r "ConsistentRead" bool
  let (scanIndexForward?, f13) := optional r "ScanIndexForward" bool
  let (limit?, f14) := optional r "Limit" integer
  let (segment?, f15) := optional r "Segment" integer
  let (totalSegments?, f16) := optional r "TotalSegments" integer
  let (returnConsumedCapacity, f17) :=
    choice r "ReturnConsumedCapacity" "types.ReturnConsumedCapacity"
  let (returnItemCollectionMetrics, f18) :=
    choice r "ReturnItemCollectionMetrics" "types.ReturnItemCollectionMetrics"
  let (returnValues, f19) := choice r "ReturnValues" "types.ReturnValue"
  let (select, f20) := choice r "Select" "types.Select"
  let names? := Conversion.names r
  let faults := f1 ++ f2 ++ f3 ++ f4 ++ f5 ++ f6 ++ f7 ++ f8 ++ f9 ++ f10 ++ f11 ++ f12 ++ f13 ++
    f14 ++ f15 ++ f16 ++ f17 ++ f18 ++ f19 ++ f20
  if faults.isEmpty then
    .ok { tableName?, item?, key?, exclusiveStartKey?, names?, values?, condition?, filter?,
          keyCondition?, projection?, update?, indexName?, consistentRead?, scanIndexForward?,
          limit?, segment?, totalSegments?, returnConsumedCapacity, returnItemCollectionMetrics,
          returnValues, select }
  else .error ⟨op.inputName, faults⟩

end TypedRequest

end DocTable
