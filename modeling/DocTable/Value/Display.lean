import DocTable.Number.Printed
import DocTable.Value.Basic

/-!
# Displayed values

The text of a dynamic value inside a message, by a verb and a layout.  A scalar is written as its
kind allows; lists stand in square brackets, maps after the word `map`, records in braces, and every
part of them is written by the same verb and layout.  A part that the verb does not fit is reported
in its place, with its type.  A reference to a composed value shows what it refers to after an
ampersand.
-/

namespace DocTable

set_option autoImplicit false

open Text Number

/-- Octets by a verb: as a text where the verb takes them for one, else as a list of numbers. -/
def Text.Layout.bytes (l : Layout) (type : String) (bytes : Bytes) (verb : Char) : String :=
  match l.octets? bytes verb with
  | some text => text
  | none => l.listed type (bytes.map fun b => Layout.fit "uint8" (l.integer? false b.toNat) verb)

/-- A text by a verb. -/
def Text.Layout.text (l : Layout) (verb : Char) (text : String) : String :=
  Layout.fit "string" (l.text? text) verb

/-- A list of texts by a verb. -/
def Text.Layout.texts (l : Layout) (verb : Char) (items : List String) : String :=
  l.listed "[]string" (items.map (l.text verb))

/-- A complex number by a verb: both parts, the second always with a sign. -/
def Text.Layout.complex? (l : Layout) (re im : Int) (verb : Char) : Option String := do
  let re ← l.float? .double (Binary64.ofInt re).bits.toNat verb
  let im ← { l with plus := true }.float? .double (Binary64.ofInt im).bits.toNat verb
  return "(" ++ re ++ im ++ "i)"

/-- The part of every attribute value that marks where it may occur. -/
def Text.Layout.marker (l : Layout) : String × String :=
  ("noSmithyDocumentSerde", l.record "document.NoSerde" [])

/-- What an attribute value holds, by a verb. -/
def AttributeValue.content (l : Layout) (verb : Char) : AttributeValue → String
  | .s t | .n t => l.text verb t
  | .raw octets => Layout.fit "string" (l.raw? octets) verb
  | .b bytes => l.bytes "[]uint8" bytes verb
  | .bool v | .null v => Layout.fit "bool" (l.truth? v) verb
  | .ss members | .ns members => l.texts verb members
  | .bs members => l.listed "[][]uint8" (members.map fun b => l.bytes "[]uint8" b verb)
  | .m _ => l.mapped "map[string]types.AttributeValue" []
  | .l _ => l.listed "[]types.AttributeValue" []
  | .unset | .unknown => ""

/-- The text of an attribute value that stands at the top: a record with one field. -/
def AttributeValue.display (l : Layout) (verb : Char) : AttributeValue → String
  | .unset => if l.source then "types.AttributeValue(nil)" else "<nil>"
  | .unknown => "&" ++ l.record "types.UnknownUnionMember"
    [("Tag", l.text verb ""), ("Value", l.bytes "[]uint8" [] verb), l.marker]
  | v => "&" ++ l.record (String.ofList (v.typeName.toList.drop 1))
    [("Value", v.content l verb), l.marker]

namespace Value

/-- Whether a value is a list, a map or a record. -/
def isComposite : Value → Bool
  | .bytes _ | .document _ | .map _ | .list _ | .literal _ | .comparison _ _ | .texts _ => true
  | .doubles _ | .byteStrings _ | .integers _ | .textMap _ | .numberedMap | .attributes _ => true
  | .person _ _ | .keyedMap _ => true
  | _ => false

mutual
/-- The text of a value by a verb. -/
def write (l : Layout) (verb : Char) : Value → String
  | .null => if l.source then "interface \x7b\x7d(nil)" else "<nil>"
  | .bool v => Layout.fit "bool" (l.truth? v) verb
  | .text t => l.text verb t
  | .raw octets => Layout.fit "string" (l.raw? octets) verb
  | .integer type n => Layout.fit type.name (l.integer? type.isSigned n) verb
  | .double x => Layout.fit "float64" (l.float? .double x.bits.toNat) verb
  | .single x => Layout.fit "float32" (l.float? .single x.bits.toNat) verb
  | .numeral t => Layout.fit "json.Number" (l.text? t) verb
  | .bytes octets => l.bytes "[]uint8" octets verb
  | .document fields => l.listed "doc.D" (writeFields l verb fields)
  | .map fields => l.mapped "map[string]interface \x7b\x7d" (writeMembers l verb fields)
  | .list items => l.listed "[]interface \x7b\x7d" (writeItems l verb items)
  | .literal operand => l.record "doc.Value"
    [("op", Layout.fit "doc.Operator" (l.text? "") verb), ("operand", write l verb operand)]
  | .comparison operator operand => l.record "doc.Value"
    [("op", Layout.fit "doc.Operator" (l.text? operator.key) verb),
      ("operand", write l verb operand)]
  | .texts items => l.texts verb items
  | .doubles items => l.listed "[]float64"
    (items.map fun x => Layout.fit "float64" (l.float? .double x.bits.toNat) verb)
  | .byteStrings items => l.listed "[][]uint8" (items.map fun b => l.bytes "[]uint8" b verb)
  | .integers items => l.listed ("[" ++ toString items.length ++ "]int")
    (items.map fun n => Layout.fit "int" (l.integer? true n) verb)
  | .textMap fields => l.mapped "map[string]string"
    (fields.map fun f => (l.text verb f.1, l.text verb f.2))
  | .numberedMap => l.mapped "map[int]string" []
  | .attributes none =>
    if l.source then "map[string]types.AttributeValue(nil)" else "map[]"
  | .attributes (some item) => l.mapped "map[string]types.AttributeValue"
    (item.map fun f => (l.text verb f.1, f.2.display l verb))
  | .attributeValue v => v.display l verb
  | .reference target => (if isComposite target then "&" else "") ++ write l verb target
  | .nullReference => Layout.fit "*int" (l.nowhere? "*int") verb
  | .namedText t => l.text verb t
  | .namedInteger n => Layout.fit "int32" (l.integer? true n) verb
  | .namedUnsigned n => Layout.fit "uint16" (l.integer? false n) verb
  | .namedDouble x => Layout.fit "float64" (l.float? .double x.bits.toNat) verb
  | .person id age => l.record "struct"
    [("ID", l.text verb id), ("Age", Layout.fit "int" (l.integer? true age) verb)]
  | .keyedMap entries =>
    l.mapped "map[interface \x7b\x7d]interface \x7b\x7d" (writeEntries l verb entries)
  | .instant i => Layout.fit "time.Time" (l.text? i.display) verb
  | .function => Layout.fit "func()" (l.nowhere? "func()") verb
  | .channel => Layout.fit "chan int" (l.nowhere? "chan int") verb
  | .complex => Layout.fit "complex128" (l.complex? 1 2) verb

/-- The texts of the fields of a document: records of a key and a value. -/
def writeFields (l : Layout) (verb : Char) : List (String × Value) → List String
  | [] => []
  | (k, v) :: rest =>
    l.record "doc.E" [("Key", l.text verb k), ("Value", write l verb v)] :: writeFields l verb rest

/-- The texts of the members of a map. -/
def writeMembers (l : Layout) (verb : Char) : List (String × Value) → List (String × String)
  | [] => []
  | (k, v) :: rest => (l.text verb k, write l verb v) :: writeMembers l verb rest

/-- The texts of the entries of a map whose keys are values. -/
def writeEntries (l : Layout) (verb : Char) : List (Value × Value) → List (String × String)
  | [] => []
  | (k, v) :: rest => (write l verb k, write l verb v) :: writeEntries l verb rest

/-- The texts of listed values. -/
def writeItems (l : Layout) (verb : Char) : List Value → List String
  | [] => []
  | v :: rest => write l verb v :: writeItems l verb rest
end

/-- The plain text of a value. -/
def display (v : Value) : String := v.write {} 'v'

end Value

end DocTable
