import DocTable.Value.Basic
import DocTable.Text.Quoted
import DocTable.Text.Case

/-!
# Dynamic values of attribute values

Reading an attribute value back: a number is an integer if it is one of 64 bits in decimal digits,
and the nearest double otherwise; a map keeps its names.  Inside lists and sets every number is a
double.  A person's record can also be read from an item, field by field.
-/

namespace DocTable

set_option autoImplicit false

open Number

/-- Why an attribute value inside a list cannot be read. -/
inductive ElementError where
  | number (text : String) (fault : Fault)
  | unsupported (typeName : String)
  deriving DecidableEq, Repr

/-- The wording of an element error. -/
def ElementError.message : ElementError → String
  | .number text fault => "strconv.ParseFloat: parsing " ++ Text.quoted text ++ ": " ++ fault.message
  | .unsupported typeName => "unsupported AttributeValue type, " ++ typeName

/-- Why an attribute value cannot be read. -/
inductive DecodeError where
  | number (text : String) (fault : Fault)
  | inside (typeName : String) (cause : ElementError)
  | named (name : String) (cause : DecodeError)
  deriving DecidableEq, Repr

/-- The wording of a decoding error. -/
def DecodeError.message : DecodeError → String
  | .number text fault =>
    "invalid number " ++ Text.quoted text ++ ": " ++ (ElementError.number text fault).message
  | .inside typeName cause => "decode " ++ typeName ++ ": " ++ cause.message
  | .named name cause => "attribute " ++ Text.quoted name ++ ": " ++ cause.message

namespace Decode

/-- A double from a number's text. -/
def double (text : String) : Except ElementError Binary64 :=
  match Binary64.read text with
  | .ok x => .ok x
  | .error fault => .error (.number text fault)

/-- Doubles from the texts of a set. -/
def doubles : List String → Except ElementError (List Binary64)
  | [] => .ok []
  | t :: rest => do
    let x ← double t
    let tail ← doubles rest
    return x :: tail

mutual
/-- The value of an element of a list. -/
def element : AttributeValue → Except ElementError Value
  | .s t => .ok (.text t)
  | .raw octets => .ok (.raw octets)
  | .n t => do
    let x ← double t
    return .double x
  | .b bytes => .ok (.bytes bytes)
  | .bool v => .ok (.bool v)
  | .null _ => .ok .null
  | .unset => .ok .null
  | .m fields => do
    let decoded ← elementFields fields
    return .map decoded
  | .l items => do
    let decoded ← elements items
    return .list decoded
  | .ss members => .ok (.texts members)
  | .ns members => do
    let xs ← doubles members
    return .doubles xs
  | .bs members => .ok (.byteStrings members)
  | .unknown => .error (.unsupported AttributeValue.unknown.typeName)

/-- The values of named elements. -/
def elementFields : List (String × AttributeValue) → Except ElementError (List (String × Value))
  | [] => .ok []
  | (k, v) :: rest => do
    let first ← element v
    let tail ← elementFields rest
    return (k, first) :: tail

/-- The values of listed elements. -/
def elements : List AttributeValue → Except ElementError (List Value)
  | [] => .ok []
  | v :: rest => do
    let first ← element v
    let tail ← elements rest
    return first :: tail
end

/-- The value of a number: an integer of 64 bits if its text is one, the nearest double otherwise. -/
def number (text : String) : Except DecodeError Value :=
  match readSigned 64 text with
  | .ok n => .ok (.int64 n)
  | .error _ => match Binary64.read text with
    | .ok x => .ok (.double x)
    | .error fault => .error (.number text fault)

/-- The value of a list or a set. -/
def collection (v : AttributeValue) : Except DecodeError Value :=
  match element v with
  | .ok x => .ok x
  | .error cause => .error (.inside v.typeName cause)

mutual
/-- The value of an attribute value. -/
def value : AttributeValue → Except DecodeError Value
  | .s t => .ok (.text t)
  | .raw octets => .ok (.raw octets)
  | .n t => number t
  | .b bytes => .ok (.bytes bytes)
  | .bool v => .ok (.bool v)
  | .null _ => .ok .null
  | .unset => .ok .null
  | .m fields => do
    let decoded ← fieldValues fields
    return .map decoded
  | .l items => collection (.l items)
  | .ss members => collection (.ss members)
  | .ns members => collection (.ns members)
  | .bs members => collection (.bs members)
  | .unknown => collection .unknown

/-- The values of named attribute values. -/
def fieldValues : List (String × AttributeValue) → Except DecodeError (List (String × Value))
  | [] => .ok []
  | (k, v) :: rest => match value v with
    | .error cause => .error (.named k cause)
    | .ok first => do
      let tail ← fieldValues rest
      return (k, first) :: tail
end

end Decode

/-- The dynamic value of an attribute value. -/
def AttributeValue.decode (v : AttributeValue) : Except DecodeError Value := Decode.value v

/-- The named values of an item. -/
def Item.decode (item : Item) : Except DecodeError (List (String × Value)) :=
  Decode.fieldValues item

/-! ## A person's record -/

/-- An identifier and an age. -/
structure Person where
  id : String
  age : Int
  deriving DecidableEq, Repr, Inhabited

namespace Person

/-- The identifier that an attribute value gives. -/
def idOf? : AttributeValue → Option String
  | .s t => some t
  | .raw octets => some octets.spelled
  | .null _ | .unset => some ""
  | _ => none

/-- The age that an attribute value gives. -/
def ageOf? : AttributeValue → Option Int
  | .n t => (readSigned 64 t).toOption
  | .null _ | .unset => some 0
  | _ => none

/-- Reads the attributes that belong to a person, whatever the case of their names. -/
def update (p : Person) : Item → Option Person
  | [] => some p
  | (k, v) :: rest =>
    if Text.equalFold k "id" then do
      let id ← idOf? v
      update { p with id := id } rest
    else if Text.equalFold k "age" then do
      let age ← ageOf? v
      update { p with age := age } rest
    else update p rest

/-- The person of an item; attributes that are missing leave their fields empty. -/
def ofItem? (item : Item) : Option Person := update ⟨"", 0⟩ item

end Person

end DocTable
