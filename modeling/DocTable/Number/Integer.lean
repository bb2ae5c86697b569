import DocTable.Number.Binary

/-!
# Integers from text

Reading of signed and unsigned integers of a bounded width.  In base ten only digits are allowed.
With a free base the text chooses it by a mark (`0x`, `0o`, `0b`, or a leading `0` for eight) and
may separate digits by underscores.  Digits are taken from left to right and the first that leads
out of range ends the reading, so a text with both faults is out of range if that digit comes
first.
-/

namespace DocTable.Number

set_option autoImplicit false

attribute [local instance] Number.corePower

/-- Reads digits of a base on top of a value; underscores are skipped where separators are allowed. -/
def readDigits (base limit : Nat) (separators : Bool) (value : Nat) : List Char → Except Fault Nat
  | [] => .ok value
  | c :: rest =>
    if c = '_' ∧ separators then readDigits base limit separators value rest
    else match digitOf? base c with
      | none => .error .malformed
      | some d =>
        let next := value * base + d
        if limit < next then .error .outOfRange
        else readDigits base limit separators next rest

/-- The base that a text chooses, and its digits. -/
def chosenBase : List Char → Nat × List Char
  | '0' :: mark :: c :: rest =>
    let m := lowerLetter mark
    if m = 'b' then (2, c :: rest)
    else if m = 'o' then (8, c :: rest)
    else if m = 'x' then (16, c :: rest)
    else (8, mark :: c :: rest)
  | '0' :: rest => (8, rest)
  | cs => (10, cs)

/-- Reads an unsigned integer of `width` bits in the base that the text chooses. -/
def readUnsignedAnyBase (width : Nat) (cs : List Char) : Except Fault Nat :=
  if cs.isEmpty then .error .malformed
  else
    let (base, digits) := chosenBase cs
    match readDigits base (2 ^ width - 1) true 0 digits with
    | .error fault => .error fault
    | .ok value =>
      if cs.contains '_' && !separatorsOk cs then .error .malformed else .ok value

/-- Reads an unsigned integer of `width` bits in base ten. -/
def readUnsigned (width : Nat) (cs : List Char) : Except Fault Nat :=
  if cs.isEmpty then .error .malformed else readDigits 10 (2 ^ width - 1) false 0 cs

/-- Gives an unsigned reading its sign and checks the range of `width` bits. -/
def signedOf (width : Nat) (negative : Bool) : Except Fault Nat → Except Fault Int
  | .error fault => .error fault
  | .ok value =>
    let bound := 2 ^ (width - 1)
    if negative then if bound < value then .error .outOfRange else .ok (-(value : Int))
    else if bound ≤ value then .error .outOfRange else .ok value

/-- Reads a signed integer of `width` bits in base ten. -/
def readSigned (width : Nat) (text : String) : Except Fault Int :=
  let (negative, digits) := takeSign text.toList
  signedOf width negative (readUnsigned width digits)

/-- Reads a signed integer of `width` bits in the base that the text chooses. -/
def readSignedAnyBase (width : Nat) (text : String) : Except Fault Int :=
  let (negative, digits) := takeSign text.toList
  signedOf width negative (readUnsignedAnyBase width digits)

/-- An integer taken into the range of `width` bits in two's complement. -/
def wrapSigned (width : Nat) (n : Int) : Int := Int.bmod n (2 ^ width)

/-- The truth value that a text names. -/
def readBool? (text : String) : Option Bool :=
  if ["1", "t", "T", "TRUE", "true", "True"].contains text then some true
  else if ["0", "f", "F", "FALSE", "false", "False"].contains text then some false
  else none

end DocTable.Number
