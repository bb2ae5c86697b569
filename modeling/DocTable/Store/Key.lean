import DocTable.Number.Binary
import DocTable.Table.Schema

/-!
# Storage keys

An item is stored under octets made of its table's name, its hash value and, if the table has a range
key, its range value, with a zero octet after the first two.  Values are written so that they never
hold a zero octet and so that the order of the octets is the order of the values: a number is written
by the bits of its double, turned so that a larger number has larger octets.
-/

namespace DocTable

set_option autoImplicit false

attribute [local instance] Number.corePower

open Number

/-- Why a key value has no octets. -/
inductive KeyEncodingError where
  | kind (cause : KeyError)
  | number (text : String) (fault : Fault)
  | hash (cause : KeyEncodingError)
  | range (cause : KeyEncodingError)
  deriving DecidableEq, Repr

/-- The wording of a key encoding error. -/
def KeyEncodingError.message : KeyEncodingError → String
  | .kind cause => cause.message
  | .number text fault =>
    "parse number " ++ Text.quoted text ++ ": strconv.ParseFloat: parsing " ++ Text.quoted text ++
      ": " ++ fault.message
  | .hash cause => "encode hash key: " ++ cause.message
  | .range cause => "encode range key: " ++ cause.message

namespace StorageKey

/-- The octet between the parts of a key. -/
def separator : UInt8 := 0

/-- Octets without zeros: zero and one are written as two octets that start with one. -/
def escape : Bytes → Bytes
  | [] => []
  | b :: rest =>
    if b = 0 then 1 :: 1 :: escape rest
    else if b = 1 then 1 :: 2 :: escape rest
    else b :: escape rest

/-- The eight octets of a word, the highest first. -/
def bigEndian (n : Nat) : Bytes :=
  (List.range 8).reverse.map fun i => UInt8.ofNat (n / 256 ^ i % 256)

/-- Whether a double is zero or more; a zero with a sign is, and what is no number is not. -/
def isNonnegative (x : Binary64) : Bool :=
  !x.isNaN && (!x.isNegative || x.bits == (0x8000000000000000 : UInt64))

/-- The octets of a double: an octet for its sign, and its bits turned so that their order is that
of the numbers. -/
def number (x : Binary64) : Bytes :=
  if isNonnegative x then
    0x80 :: bigEndian (x.bits ^^^ 0x8000000000000000).toNat
  else 0x7F :: bigEndian (x.bits ^^^ 0xFFFFFFFFFFFFFFFF).toNat

/-- The octets of a number's text. -/
def numberText (text : String) : Except KeyEncodingError Bytes :=
  match Binary64.read text with
  | .ok x => .ok (number x)
  | .error fault => .error (.number text fault)

/-- The octets of a key value, which must have the kind of its key. -/
def value (k : KeyDefinition) (v : AttributeValue) : Except KeyEncodingError Bytes :=
  match k.check v with
  | .error cause => .error (.kind cause)
  | .ok () => match v with
    | .s text => .ok (escape (Text.utf8 text))
    | .raw text => .ok (escape text.octets)
    | .b bytes => .ok (escape bytes)
    | .n text => do
      let bytes ← numberText text
      return escape bytes
    | _ => .ok []

end StorageKey

namespace TableSchema

/-- What the keys of all items of a table start with. -/
def keyStart (t : TableSchema) : Bytes := Text.utf8 t.name ++ [StorageKey.separator]

/-- What the keys of all items with a hash value start with. -/
def partitionStart (t : TableSchema) (hash : AttributeValue) : Except KeyEncodingError Bytes :=
  match StorageKey.value t.hash hash with
  | .error cause => .error (.hash cause)
  | .ok bytes => .ok (t.keyStart ++ bytes ++ [StorageKey.separator])

/-- The value of an attribute, unset if it is missing. -/
def keyAttribute (key : Item) (k : KeyDefinition) : AttributeValue :=
  (Keyed.lookup k.name key).getD .unset

/-- The key under which an item is stored. -/
def storageKey (t : TableSchema) (key : Item) : Except KeyEncodingError Bytes :=
  match t.partitionStart (keyAttribute key t.hash) with
  | .error cause => .error cause
  | .ok start =>
    if t.hasRange then
      match StorageKey.value t.range (keyAttribute key t.range) with
      | .error cause => .error (.range cause)
      | .ok bytes => .ok (start ++ bytes)
    else .ok start

end TableSchema

end DocTable
