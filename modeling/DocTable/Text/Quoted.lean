import DocTable.Text.Bytes
import DocTable.Text.Printable

/-!
# Quoted text

A text in double quotes in which the quote, the backslash and every character without a visible
form are escaped: a few control characters by a letter, those below the space and the delete
character by two hexadecimal digits, the others by four or eight.
-/

namespace DocTable.Text

set_option autoImplicit false

/-- The form of a character without a visible one. -/
def escapeHidden (c : Char) : String :=
  let n := c.toNat
  if n = 7 then "\\a" else if n = 8 then "\\b" else if n = 12 then "\\f"
  else if n = 10 then "\\n" else if n = 13 then "\\r" else if n = 9 then "\\t"
  else if n = 11 then "\\v"
  else if n < 32 ∨ n = 127 then "\\x" ++ hexNat 2 n
  else if n < 0x10000 then "\\u" ++ hexNat 4 n
  else "\\U" ++ hexNat 8 n

/-- Which characters stand for themselves between quotes: all with a visible form, or of these only
those of ASCII. -/
def standsPlain (ascii : Bool) (c : Char) : Bool := isPrintable c && (!ascii || c.toNat < 128)

/-- The form of a character between quotes. -/
def quotedCharIn (ascii : Bool) (quote c : Char) : String :=
  if c = quote ∨ c = '\\' then String.ofList ['\\', c]
  else if standsPlain ascii c then String.singleton c
  else escapeHidden c

/-- The form of a character between quotes, every visible character plain. -/
def quotedChar (quote c : Char) : String := quotedCharIn false quote c

/-- A text between double quotes. -/
def quoted (text : String) : String :=
  "\"" ++ String.join (text.toList.map (quotedChar '\x22')) ++ "\""

/-- The forms of octets between quotes, skipping `pending` octets that a character already used; an
octet that belongs to no character is escaped on its own. -/
def quotedOctets (ascii : Bool) : Nat → Bytes → List String
  | _, [] => []
  | pending + 1, _ :: rest => quotedOctets ascii pending rest
  | 0, b :: rest =>
    let (c, used) := leadingChar b rest
    let form :=
      if c = replacement ∧ used = 0 then "\\x" ++ hexNat 2 b.toNat else quotedCharIn ascii '\x22' c
    form :: quotedOctets ascii used rest

/-- A byte string between double quotes, perhaps in ASCII alone. -/
def quotedBytesIn (ascii : Bool) (bytes : Bytes) : String :=
  "\"" ++ String.join (quotedOctets ascii 0 bytes) ++ "\""

/-- A byte string between double quotes. -/
def quotedBytes (bytes : Bytes) : String := quotedBytesIn false bytes

/-- A character between single quotes, perhaps in ASCII alone. -/
def quotedCharacterIn (ascii : Bool) (c : Char) : String :=
  "'" ++ quotedCharIn ascii '\x27' c ++ "'"

/-- A character between single quotes. -/
def quotedCharacter (c : Char) : String := quotedCharacterIn false c

/-- Whether octets can stand between grave accents, where nothing is escaped: they are the octets of
characters, and none of these is a grave accent, an order mark, the delete character or a control
character other than the tabulator. -/
def standsRaw (bytes : Bytes) : Bool :=
  utf8 (ofBytes bytes) == bytes && (ofBytes bytes).toList.all fun c =>
    (' ' ≤ c || c == '\t') && c != '\x60' && c != '\x7f' && c != '\uFEFF'

end DocTable.Text
