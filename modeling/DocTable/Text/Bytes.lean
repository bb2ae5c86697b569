import DocTable.Number.Power

/-!
# Octets and their texts

A byte string is a list of octets.  This module gives its hexadecimal text, the octets of a
character string, and two readings of octets as characters.  One tells the texts from the octets that
are no text (`Text.Raw`), the other replaces every octet that does not belong to a well-formed
sequence on its own.
-/

namespace DocTable

set_option autoImplicit false

attribute [local instance] Number.corePower

/-- A byte string. -/
abbrev Bytes := List UInt8

namespace Text

/-- The octets of a text in UTF-8. -/
def utf8 (text : String) : Bytes := text.toUTF8.data.toList

/-! ## Hexadecimal text -/

/-- The lower-case hexadecimal digit of a number below sixteen. -/
def hexDigit (n : Nat) : Char :=
  if n < 10 then Char.ofNat (48 + n) else Char.ofNat (87 + n)

/-- A number in hexadecimal, with leading zeros up to `width` digits. -/
def hexNat (width n : Nat) : String :=
  String.ofList ((List.range width).reverse.map fun i => hexDigit (n / 16 ^ i % 16))

/-- Two hexadecimal digits an octet. -/
def hex (bytes : Bytes) : String :=
  String.join (bytes.map fun b => hexNat 2 b.toNat)

/-- The number that a hexadecimal digit of either case stands for. -/
def hexValue? (c : Char) : Option Nat :=
  if '0' ≤ c ∧ c ≤ '9' then some (c.toNat - 48)
  else if 'a' ≤ c ∧ c ≤ 'f' then some (c.toNat - 87)
  else if 'A' ≤ c ∧ c ≤ 'F' then some (c.toNat - 55)
  else none

/-- Octets from pairs of hexadecimal digits. -/
def unhex? : List Char → Option Bytes
  | [] => some []
  | [_] => none
  | a :: b :: rest => do
    let high ← hexValue? a
    let low ← hexValue? b
    let tail ← unhex? rest
    return UInt8.ofNat (16 * high + low) :: tail

/-! ## Octets that are no text -/

/-- Octets that no text has. -/
@[ext]
structure Raw where
  octets : Bytes
  noText : ∀ text, utf8 text ≠ octets
  deriving DecidableEq, Repr

/-- The text that has the octets, or the octets as they are if there is none. -/
def read (bytes : Bytes) : Except Raw String :=
  let array : ByteArray := ⟨bytes.toArray⟩
  if valid : array.IsValidUTF8 then .ok (String.ofByteArray array valid)
  else .error ⟨bytes, fun text same => valid (by
    subst same
    exact text.isValidUTF8)⟩

/-! ## Octets read as characters -/

/-- What replaces an octet that belongs to no character. -/
def replacement : Char := '\uFFFD'

/-- Whether an octet continues a character. -/
def isContinuation (b : UInt8) : Bool := 0x80 ≤ b && b ≤ 0xBF

/-- The first character of a byte string and the number of octets after its first one that belong
to it; an octet that starts no well-formed sequence is replaced. -/
def leadingChar (first : UInt8) (rest : Bytes) : Char × Nat :=
  let tail (b : UInt8) : Nat := b.toNat % 64
  if first < 0x80 then (Char.ofNat first.toNat, 0)
  else match rest with
    | b :: more =>
      if 0xC2 ≤ first && first ≤ 0xDF && isContinuation b then
        (Char.ofNat (first.toNat % 32 * 64 + tail b), 1)
      else match more with
        | c :: more' =>
          let low : UInt8 := if first == 0xE0 then 0xA0 else 0x80
          let high : UInt8 := if first == 0xED then 0x9F else 0xBF
          if 0xE0 ≤ first && first ≤ 0xEF && low ≤ b && b ≤ high && isContinuation c then
            (Char.ofNat (first.toNat % 16 * 4096 + tail b * 64 + tail c), 2)
          else match more' with
            | d :: _ =>
              let low : UInt8 := if first == 0xF0 then 0x90 else 0x80
              let high : UInt8 := if first == 0xF4 then 0x8F else 0xBF
              if 0xF0 ≤ first && first ≤ 0xF4 && low ≤ b && b ≤ high &&
                  isContinuation c && isContinuation d then
                (Char.ofNat (first.toNat % 8 * 262144 + tail b * 4096 + tail c * 64 + tail d), 3)
              else (replacement, 0)
            | [] => (replacement, 0)
        | [] => (replacement, 0)
    | [] => (replacement, 0)

/-- Reads octets as characters, skipping `pending` octets that a character already used. -/
def charsFrom : Nat → Bytes → List Char
  | _, [] => []
  | pending + 1, _ :: rest => charsFrom pending rest
  | 0, b :: rest =>
    let (c, used) := leadingChar b rest
    c :: charsFrom used rest

/-- The characters of octets, skipping `pending` octets that a character already used; an octet that
belongs to no character has none. -/
def marksFrom : Nat → Bytes → List (Option Char)
  | _, [] => []
  | pending + 1, _ :: rest => marksFrom pending rest
  | 0, b :: rest =>
    let (c, used) := leadingChar b rest
    (if c = replacement ∧ used = 0 then none else some c) :: marksFrom used rest

/-- The characters of octets that are no text. -/
def Raw.marks (raw : Raw) : List (Option Char) := marksFrom 0 raw.octets

/-- The octets of each character, skipping `pending` octets that a character already used; an octet
that belongs to no character stands alone. -/
def clustersFrom : Nat → Bytes → List Bytes
  | _, [] => []
  | pending + 1, _ :: rest => clustersFrom pending rest
  | 0, b :: rest =>
    let used := (leadingChar b rest).2
    (b :: rest.take used) :: clustersFrom used rest

/-- The octets of the first `count` characters. -/
def leadingOctets (count : Nat) (bytes : Bytes) : Bytes := ((clustersFrom 0 bytes).take count).flatten

/-- The text of a byte string, ill-formed octets replaced one by one. -/
def ofBytes (bytes : Bytes) : String := String.ofList (charsFrom 0 bytes)

/-- How octets that are no text are spelled where only a text can stand. -/
def Raw.spelled (raw : Raw) : String := ofBytes raw.octets

end Text

end DocTable
