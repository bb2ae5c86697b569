import DocTable.Document.Basic
import DocTable.Text.Quoted

/-!
# Attribute values of dynamic values

Every text becomes an `S`, every number an `N` in plain decimal notation, every object an `M`.  A
list becomes an `M` whose keys are the positions, so that list semantics has to be asked for.  A
number that is kept as its text must be a decimal; if it has an exponent it is written out through
the nearest double.

Paths in errors name the place inside the encoded value, from its outermost field on.
-/

namespace DocTable

set_option autoImplicit false

open Number

/-- What is wrong with a value that has a type with an attribute form. -/
inductive EncodeCause where
  | notFinite (text : String)
  | notDecimal (text : String)
  | unreadable (text : String) (fault : Fault)
  deriving DecidableEq, Repr

/-- The wording of a cause. -/
def EncodeCause.message : EncodeCause → String
  | .notFinite text => text ++ " is not a number"
  | .notDecimal text => Text.quoted text ++ " is not a decimal number"
  | .unreadable text fault =>
    "strconv.ParseFloat: parsing " ++ Text.quoted text ++ ": " ++ fault.message

/-- Why a value has no attribute form. -/
structure EncodeError where
  path : String
  typeName : String
  cause? : Option EncodeCause
  deriving DecidableEq, Repr

/-- The wording of an encoding error. -/
def EncodeError.message (e : EncodeError) : String :=
  "cannot encode " ++ e.typeName ++
    (if e.path = "" then "" else " at " ++ Text.quoted e.path) ++
    match e.cause? with
    | none => ""
    | some cause => ": " ++ cause.message

namespace Encode

/-! ## Numbers -/

/-- Takes digits off the front, and tells whether there was one. -/
def takeDigits (cs : List Char) : Bool × List Char :=
  ((cs.takeWhile isDigit).length != 0, cs.dropWhile isDigit)

/-- Whether characters are an exponent, or nothing. -/
def isExponent : List Char → Bool
  | [] => true
  | c :: rest =>
    (c == 'e' || c == 'E') &&
      let digits := (takeSign rest).2
      !digits.isEmpty && digits.all isDigit

/-- Whether a text is decimal: a sign, digits with a point among them, and an exponent. -/
def isDecimal (text : String) : Bool :=
  let (whole, rest) := takeDigits (takeSign text.toList).2
  match rest with
  | '.' :: rest =>
    let (fraction, rest) := takeDigits rest
    (whole || fraction) && isExponent rest
  | rest => whole && isExponent rest

/-- Whether a text has an exponent mark. -/
def hasExponent (text : String) : Bool := text.toList.any fun c => c == 'e' || c == 'E'

/-- A decimal text without an exponent. -/
def plainDecimal (text : String) : Except EncodeCause String :=
  if !isDecimal text then .error (.notDecimal text)
  else if !hasExponent text then .ok text
  else match Binary64.read text with
    | .ok x => .ok x.positional
    | .error fault => .error (.unreadable text fault)

/-- A double as a number attribute. -/
def double (path : String) (x : Binary64) : Except EncodeError AttributeValue :=
  if x.isFinite then .ok (.n x.positional)
  else .error ⟨path, "float64", some (.notFinite x.general)⟩

/-! ## Structures

A value that is an attribute value already is taken for a record with one field. -/

/-- The record of one field. -/
def recordOf (value : AttributeValue) : AttributeValue := .m [("Value", value)]

/-- A byte string in a record; an empty one is null there. -/
def recordBytes (bytes : Bytes) : AttributeValue :=
  if bytes.isEmpty then .null true else .b bytes

mutual
/-- The record that an attribute value is. -/
def record : AttributeValue → AttributeValue
  | .s t => recordOf (.s t)
  | .raw octets => recordOf (.raw octets)
  | .n t => recordOf (.s t)
  | .b bytes => recordOf (recordBytes bytes)
  | .bool v => recordOf (.bool v)
  | .null v => recordOf (.bool v)
  | .m fields => recordOf (.m (recordFields fields))
  | .l items => recordOf (.l (recordItems items))
  | .ss members => recordOf (.l (members.map .s))
  | .ns members => recordOf (.l (members.map .s))
  | .bs members => recordOf (.l (members.map recordBytes))
  | .unset => .null true
  | .unknown => .m [("Tag", .s ""), ("Value", .null true)]

/-- The records of named attribute values. -/
def recordFields : List (String × AttributeValue) → List (String × AttributeValue)
  | [] => []
  | (k, v) :: rest => (k, record v) :: recordFields rest

/-- The records of listed attribute values. -/
def recordItems : List AttributeValue → List AttributeValue
  | [] => []
  | v :: rest => record v :: recordItems rest
end

/-! ## Values -/

/-- The path of a field below a path. -/
def join (path key : String) : String := if path = "" then key else path ++ "." ++ key

/-- Keys for a list: the positions from `start` on. -/
def positions {α : Type} (start : Nat) : List α → List (String × α)
  | [] => []
  | v :: rest => (toString start, v) :: positions (start + 1) rest

/-- Values that need no check, keyed by position. -/
def indexed (values : List AttributeValue) : AttributeValue := .m (Keyed.ofList (positions 0 values))

/-- Encodes a list of doubles from a position on. -/
def doubles (path : String) (position : Nat) :
    List Binary64 → Except EncodeError (List (String × AttributeValue))
  | [] => .ok []
  | x :: rest => do
    let v ← double (join path (toString position)) x
    let tail ← doubles path (position + 1) rest
    return (toString position, v) :: tail

mutual
/-- The attribute value of a dynamic value at a path.  A reference is followed, but a resolved
filter value behind one is a record without visible fields. -/
def value (path : String) : Value → Except EncodeError AttributeValue
  | .null => .ok (.null true)
  | .text t => .ok (.s t)
  | .raw octets => .ok (.raw octets)
  | .bool v => .ok (.bool v)
  | .bytes v => .ok (.b v)
  | .integer _ n => .ok (.n (toString n))
  | .single x => double path x.toDouble
  | .double x => double path x
  | .numeral t => match plainDecimal t with
    | .ok s => .ok (.n s)
    | .error cause => .error ⟨path, "json.Number", some cause⟩
  | .literal operand => value path operand
  | .comparison _ operand => value path operand
  | .document fields => do
    let encoded ← fieldsAt path fields
    return .m (Keyed.ofList encoded)
  | .map fields => do
    let encoded ← fieldsAt path fields
    return .m (Keyed.ofList encoded)
  | .list items => do
    let encoded ← itemsAt path 0 items
    return .m (Keyed.ofList encoded)
  | .texts items => .ok (indexed (items.map .s))
  | .doubles items => do
    let encoded ← doubles path 0 items
    return .m (Keyed.ofList encoded)
  | .byteStrings items => .ok (indexed (items.map .b))
  | .integers items => .ok (indexed (items.map fun n => .n (toString n)))
  | .textMap fields => .ok (.m (Keyed.mapValues AttributeValue.s fields))
  | .numberedMap => .error ⟨path, Value.numberedMap.typeName, none⟩
  | .keyedMap entries => .error ⟨path, (Value.keyedMap entries).typeName, none⟩
  | .attributes item => .ok (.m (recordFields (item.getD [])))
  | .attributeValue v => .ok (record v)
  | .reference (.literal _) => .ok (.m [])
  | .reference (.comparison _ _) => .ok (.m [])
  | .reference target => value path target
  | .nullReference => .ok (.null true)
  | .namedText t => .ok (.s t)
  | .namedInteger n => .ok (.n (toString n))
  | .namedUnsigned n => .ok (.n (toString n))
  | .namedDouble x => double path x
  | .person id age => .ok (.m [("age", .n (toString age)), ("id", .s id)])
  | .instant _ => .ok (.m [])
  | .function => .error ⟨path, Value.function.typeName, none⟩
  | .channel => .error ⟨path, Value.channel.typeName, none⟩
  | .complex => .error ⟨path, Value.complex.typeName, none⟩

/-- The attribute values of named values below a path, in order. -/
def fieldsAt (path : String) :
    List (String × Value) → Except EncodeError (List (String × AttributeValue))
  | [] => .ok []
  | (k, v) :: rest => do
    let first ← value (join path k) v
    let tail ← fieldsAt path rest
    return (k, first) :: tail

/-- The attribute values of listed values below a path, keyed by position. -/
def itemsAt (path : String) (position : Nat) :
    List Value → Except EncodeError (List (String × AttributeValue))
  | [] => .ok []
  | v :: rest => do
    let first ← value (join path (toString position)) v
    let tail ← itemsAt path (position + 1) rest
    return (toString position, first) :: tail
end

end Encode

/-- The attribute value of a dynamic value. -/
def Value.encode (v : Value) : Except EncodeError AttributeValue := Encode.value "" v

/-- The attribute values of the fields of a document, in order. -/
def Document.encodeFields : Document → Except EncodeError (List (String × AttributeValue))
  | [] => .ok []
  | (k, v) :: rest => do
    let first ← Encode.value k v
    let tail ← Document.encodeFields rest
    return (k, first) :: tail

/-- The item of a document; the last field of a name stays. -/
def Document.encode (d : Document) : Except EncodeError Item := do
  let fields ← d.encodeFields
  return Keyed.ofList fields

end DocTable
