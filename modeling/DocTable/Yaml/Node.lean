import DocTable.Number.Integer
import DocTable.Yaml.Fault
import DocTable.Yaml.Timestamp

/-!
# Nodes

A document is a tree of scalars, sequences and mappings; an alias stands for a node that was named
before, or for one that it stands in itself.  A node has a tag that was written, or none.  What a plain scalar without a tag means is read
off its text: null, a truth value, an integer, a double, a timestamp, the mark of a merge, or text.
-/

namespace DocTable.Yaml

set_option autoImplicit false

open Number

/-- A node.  The tag is in its short form, empty if none was written. -/
inductive Node where
  | scalar (line : Nat) (tag : String) (plain : Bool) (text : String)
  | sequence (line : Nat) (tag : String) (items : List Node)
  | mapping (line : Nat) (tag : String) (pairs : List (Node × Node))
  | alias (line : Nat) (name : String) (target : Node)
  /-- An alias of the node with a numbered anchor around it. -/
  | enclosing (line : Nat) (name : String) (number : Nat)
  deriving Repr, Inhabited

namespace Node

/-- The line where a node starts, from one. -/
def line : Node → Nat
  | .scalar line _ _ _ => line
  | .sequence line _ _ => line
  | .mapping line _ _ => line
  | .alias line _ _ => line
  | .enclosing line _ _ => line

/-- The text of a scalar or the name of an alias; collections have none. -/
def text : Node → String
  | .scalar _ _ _ text => text
  | .alias _ name _ => name
  | .enclosing _ name _ => name
  | _ => ""

end Node

/-- The tags of the standard types. -/
inductive StandardTag where
  | null | bool | int | float | timestamp | str | binary | merge | seq | map
  deriving DecidableEq, Repr

/-- The short form of a standard tag. -/
def StandardTag.short : StandardTag → String
  | .null => "!!null"
  | .bool => "!!bool"
  | .int => "!!int"
  | .float => "!!float"
  | .timestamp => "!!timestamp"
  | .str => "!!str"
  | .binary => "!!binary"
  | .merge => "!!merge"
  | .seq => "!!seq"
  | .map => "!!map"

/-- What the text of a scalar means. -/
inductive Meaning where
  | null
  | bool (value : Bool)
  | int (value : Int)
  | float (value : Binary64)
  | timestamp (value : Instant)
  | merge
  | text (value : String)
  deriving Repr, Inhabited

/-- The tag of a meaning. -/
def Meaning.tag : Meaning → StandardTag
  | .null => .null
  | .bool _ => .bool
  | .int _ => .int
  | .float _ => .float
  | .timestamp _ => .timestamp
  | .merge => .merge
  | .text _ => .str

/-! ## The meaning of a text -/

/-- The texts with a fixed meaning. -/
def fixedMeaning? (text : String) : Option Meaning :=
  if ["true", "True", "TRUE"].contains text then some (.bool true)
  else if ["false", "False", "FALSE"].contains text then some (.bool false)
  else if ["", "~", "null", "Null", "NULL"].contains text then some .null
  else if [".nan", ".NaN", ".NAN"].contains text then
    some (.float ⟨UInt64.ofNat (Format.double.infinityBits + 0x8000000000000 + 1)⟩)
  else if [".inf", ".Inf", ".INF", "+.inf", "+.Inf", "+.INF"].contains text then
    some (.float ⟨UInt64.ofNat Format.double.infinityBits⟩)
  else if ["-.inf", "-.Inf", "-.INF"].contains text then
    some (.float ⟨UInt64.ofNat (Format.double.signBits + Format.double.infinityBits)⟩)
  else if text = "<<" then some .merge
  else none

/-- Whether characters are an optional exponent. -/
def isFloatExponent : List Char → Bool
  | [] => true
  | c :: rest =>
    (c == 'e' || c == 'E') &&
      let digits := (takeSign rest).2
      !digits.isEmpty && digits.all isDigit

/-- Whether a text is written like a decimal number. -/
def isFloatText (cs : List Char) : Bool :=
  let body := (takeSign cs).2
  let whole := body.takeWhile isDigit
  match body.dropWhile isDigit with
  | '.' :: rest =>
    (!whole.isEmpty || !(rest.takeWhile isDigit).isEmpty) && isFloatExponent (rest.dropWhile isDigit)
  | rest => !whole.isEmpty && isFloatExponent rest

/-- The integer of 64 bits that digits after a base mark give; a sign may stand between the two. -/
def markedInteger? : List Char → Option Int
  | '0' :: mark :: rest =>
    let base := if mark = 'b' then 2 else if mark = 'o' then 8 else 0
    let (negative, digits) := takeSign rest
    if base = 0 ∨ digits.isEmpty then none
    else (signedOf 64 negative (readDigits base 0xFFFFFFFFFFFFFFFF false 0 digits)).toOption
  | _ => none

/-- The integer of 64 bits, signed or not, that a text without underscores gives in the base it
chooses. -/
def integerOf? (text : String) : Option Int :=
  match readSignedAnyBase 64 text with
  | .ok n => some n
  | .error _ => match readUnsignedAnyBase 64 text.toList with
    | .ok n => some n
    | .error _ => markedInteger? text.toList

/-- The meaning of a text that starts with a digit or a sign. -/
def numberMeaning? (text : String) : Option Meaning :=
  let chars := text.toList.filter (· != '_')
  let bare := String.ofList chars
  match integerOf? bare with
  | some n => some (.int n)
  | none =>
    if isFloatText chars then match Binary64.read bare with
      | .ok x => some (.float x)
      | .error _ => none
    else none

/-- The meaning of a text; a timestamp only counts where one may stand. -/
def meaningOf (timestamps : Bool) (text : String) : Meaning :=
  match text.toList.head? with
  | none => .null
  | some c =>
    if c == '+' || c == '-' || isDigit c then
      match fixedMeaning? text with
      | some meaning => meaning
      | none => match (if timestamps then Timestamp.read? text else none) with
        | some instant => .timestamp instant
        | none => (numberMeaning? text).getD (.text text)
    else if c == '.' then
      match fixedMeaning? text with
      | some meaning => meaning
      | none => match Binary64.read text with
        | .ok x => .float x
        | .error _ => .text text
    else if "yYnNtTfFoO~<".toList.contains c then (fixedMeaning? text).getD (.text text)
    else .text text

/-- The tags that say what a text must mean. -/
def meaningTags : List String :=
  [StandardTag.null, .bool, .int, .float, .timestamp].map StandardTag.short

/-- The meaning of a scalar with a tag.  A tag of the types that have a meaning must agree with the
text, but an integer also is a double; under any other tag a text is just a text. -/
def taggedMeaning (tag text : String) : Except Fault Meaning :=
  if tag ≠ "" ∧ tag ∉ meaningTags then .ok (.text text)
  else
    let meaning := meaningOf (tag = "" ∨ tag = StandardTag.timestamp.short) text
    if tag = "" ∨ tag = meaning.tag.short then .ok meaning
    else match meaning with
      | .int n =>
        if tag = StandardTag.float.short ∧ n < 0x8000000000000000 then .ok (.float (Binary64.ofInt n))
        else .error (.unreadable text tag)
      | _ => .error (.unreadable text tag)

namespace Node

/-- The short tag of a node: the one written, the one of the text of a plain scalar, text for a
quoted one. -/
def shortTag : Node → String
  | .scalar _ tag plain text =>
    if tag ≠ "" then tag
    else if plain then (meaningOf true text).tag.short
    else StandardTag.str.short
  | .sequence _ tag _ => if tag = "" then StandardTag.seq.short else tag
  | .mapping _ tag _ => if tag = "" then StandardTag.map.short else tag
  | .alias _ _ target => target.shortTag
  | .enclosing _ _ _ => ""

/-- The meaning of a scalar. -/
def meaning (tag : String) (plain : Bool) (text : String) : Except Fault Meaning :=
  if tag = "" ∧ !plain then .ok (.text text) else taggedMeaning tag text

end Node

end DocTable.Yaml
